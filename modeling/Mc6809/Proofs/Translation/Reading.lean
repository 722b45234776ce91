import Mc6809.Proofs.Reading.Line
import Mc6809.Proofs.Translation.Basic

/-!
# Reading a translation

Readers look at names only to hand them on, and at numbers and places not at all.  So what they read from translated
tokens is the translation of what they read from the tokens themselves, and they fail at the same place
(`Line.statement?_translate`).
-/

namespace Mc6809

variable {τ : Translation}

/-! ### Tokens and faults -/

private theorem nextToken_translate (stop : Token) (ts : List Token) :
    nextToken (stop.translate τ) (ts.map (Token.translate τ)) = (nextToken stop ts).translate τ := by
  cases ts <;> rfl

private theorem faultAt_translate {p p' : Lexeme → Problem} (h : ∀ l, p' (l.translate τ) = (p l).translate τ)
    (stop : Token) (ts : List Token) :
    faultAt (stop.translate τ) (ts.map (Token.translate τ)) p' = (faultAt stop ts p).translate τ := by
  unfold faultAt
  rw [nextToken_translate]
  simp [Fault.translate, h]

private theorem Fault.after_translate (f : Fault) (terms : List Term) :
    (f.after terms).translate τ = (f.translate τ).after (terms.map (Term.translate τ)) := by
  simp [after, translate]

private theorem faultAt_after_translate {p p' : Lexeme → Problem} (h : ∀ l, p' (l.translate τ) = (p l).translate τ)
    (stop : Token) (ts : List Token) (terms : List Term) :
    (faultAt (stop.translate τ) (ts.map (Token.translate τ)) p').after (terms.map (Term.translate τ)) =
      ((faultAt stop ts p).after terms).translate τ := by
  rw [Fault.after_translate, faultAt_translate h]

/-- The lexemes that readers look for are the same in a translation. -/
private theorem afterLexeme?_translate {l : Lexeme} (hl : l.isFixed = true) (ts : List Token) :
    afterLexeme? l (ts.map (Token.translate τ)) = (afterLexeme? l ts).map (List.map (Token.translate τ)) := by
  cases ts with
  | nil => rfl
  | cons t ts =>
    simp only [List.map_cons, afterLexeme?, Token.lexeme_translate, Lexeme.translate_eq_iff hl]
    split <;> rfl

/-! ### Expressions -/

namespace Expr

private theorem signFollows_translate (ts : List Token) :
    signFollows (ts.map (Token.translate τ)) = signFollows ts := by
  cases ts with
  | nil => rfl
  | cons t ts => simp [signFollows]

private theorem readTerms_translate (stop : Token) (sign : Int) (seen : List Term) (ts : List Token) :
    readTerms (stop.translate τ) sign (seen.map (Term.translate τ)) (ts.map (Token.translate τ)) =
      (readTerms stop sign seen ts).translate τ (List.map (Term.translate τ)) := by
  induction ts generalizing sign seen with
  | nil => exact congrArg Except.error (faultAt_after_translate (fun _ => rfl) stop [] seen)
  | cons t ts ih =>
    simp only [List.map_cons, readTerms, Token.lexeme_translate, Lexeme.sign?_translate, Lexeme.atom?_translate]
    cases t.lexeme.sign? with
    | some k => exact ih _ _
    | none =>
      cases t.lexeme.atom? with
      | some a =>
        have hseen := ih 1 (seen ++ [⟨sign, a, t⟩])
        rw [List.map_append] at hseen
        simp only [Option.map_some, signFollows_translate]
        split
        · exact hseen
        · simp [Reading.translate, Term.translate]
      | none => exact congrArg Except.error (faultAt_after_translate (fun _ => rfl) stop (t :: ts) seen)

private theorem read_translate (stop : Token) (ts : List Token) :
    read (stop.translate τ) (ts.map (Token.translate τ)) = (read stop ts).translate τ (translate τ) := by
  have h := readTerms_translate (τ := τ) stop 1 [] ts
  unfold read
  rw [nextToken_translate]
  rw [List.map_nil] at h
  rw [h]
  cases readTerms stop 1 [] ts <;> rfl

end Expr

/-! ### Operands -/

private theorem IndexHead.terms_translate (head : IndexHead) :
    (head.translate τ).terms = head.terms.map (Term.translate τ) := by
  cases head <;> rfl

theorem IndexOperand.terms_translate (i : IndexOperand) :
    (i.translate τ).terms = i.terms.map (Term.translate τ) := by
  cases i <;> rfl

theorem PlainOperand.terms_translate (operand : PlainOperand) :
    (operand.translate τ).terms = operand.terms.map (Term.translate τ) := by
  cases operand with
  | address e => rfl
  | index i => exact i.terms_translate

namespace Operand

private theorem accumulatorAhead?_translate (ts : List Token) :
    accumulatorAhead? (ts.map (Token.translate τ)) =
      (accumulatorAhead? ts).map fun p => (p.1, p.2.map (Token.translate τ)) := by
  cases ts with
  | nil => rfl
  | cons t ts =>
    simp only [List.map_cons, accumulatorAhead?, Token.lexeme_translate]
    rw [afterLexeme?_translate rfl]
    cases t.lexeme with
    | eof => rcases Lexeme.translate_eof τ with h | h <;> rw [h] <;> rfl
    | register r => cases afterLexeme? .comma ts <;> simp [Lexeme.translate, Function.comp_def]
    | _ => rfl

private theorem takeStepping_translate {asks : Lexeme → Option Stepping} (h : ∀ l, asks (l.translate τ) = asks l)
    (ts : List Token) :
    takeStepping asks (ts.map (Token.translate τ)) =
      ((takeStepping asks ts).1.map fun p => (p.1, p.2.translate τ),
        (takeStepping asks ts).2.map (Token.translate τ)) := by
  cases ts with
  | nil => rfl
  | cons t ts =>
    simp only [List.map_cons, takeStepping, Token.lexeme_translate, h]
    cases asks t.lexeme <;> rfl

private theorem before?_translate (l : Lexeme) : before? (l.translate τ) = before? l :=
  Lexeme.apply_translate (fun _ => rfl) (fun _ => rfl) rfl rfl l

private theorem behind?_translate (l : Lexeme) : behind? (l.translate τ) = behind? l :=
  Lexeme.apply_translate (fun _ => rfl) (fun _ => rfl) rfl rfl l

private theorem combine_translate (indirect : Bool) (head : IndexHead) (before : Option (Stepping × Token))
    (r : Register)
    (t : Token) (behind : Option (Stepping × Token)) :
    combine indirect (head.translate τ) (before.map fun p => (p.1, p.2.translate τ)) r (t.translate τ)
        (behind.map fun p => (p.1, p.2.translate τ)) =
      ((combine indirect head before r t behind).map (IndexOperand.translate τ)).mapError
        fun p => (p.1.translate τ, p.2.translate τ) := by
  -- The mark of a stepping counts for its place and its text in a message.
  have hstep : ∀ (s : Stepping) (mark : Token) (i : IndexRegister),
      (if (indirect && Stepping.byOne s) = true then
          .error (.steppedByOneIndirect (mark.translate τ).lexeme, mark.translate τ)
        else .ok (.stepping s i) : Except (Problem × Token) IndexOperand) =
      ((if (indirect && Stepping.byOne s) = true then .error (.steppedByOneIndirect mark.lexeme, mark)
        else .ok (.stepping s i) : Except (Problem × Token) IndexOperand).map (IndexOperand.translate τ)).mapError
          fun p => (p.1.translate τ, p.2.translate τ) := by
    intro s mark i
    split <;> rfl
  have hcounter : ∀ e : Expr, (if r = .pc then .counter (e.translate τ) else .target (e.translate τ)) =
      IndexOperand.translate τ (if r = .pc then .counter e else .target e) := by
    intro e
    split <;> rfl
  unfold combine
  rcases before with _ | ⟨s, mark⟩ <;> rcases behind with _ | ⟨s', mark'⟩
  · cases head with
    | offset e =>
      cases r.index? with
      | some i => rfl
      | none => exact congrArg Except.ok (hcounter e)
    | _ => cases r.index? <;> rfl
  · cases head with
    | empty =>
      cases r.index? with
      | some i => exact hstep ..
      | none => rfl
    | _ => rfl
  · cases head with
    | empty =>
      cases r.index? with
      | some i => exact hstep ..
      | none => rfl
    | _ => rfl
  · rfl

private theorem readIndex_translate (stop : Token) (indirect : Bool) (head : IndexHead) (ts : List Token) :
    readIndex (stop.translate τ) indirect (head.translate τ) (ts.map (Token.translate τ)) =
      (readIndex stop indirect head ts).translate τ (PlainOperand.translate τ) := by
  have hfault : ∀ us, Except.error ((faultAt (stop.translate τ) (us.map (Token.translate τ)) .indexExpected).after
      (head.terms.map (Term.translate τ))) = Reading.translate τ (PlainOperand.translate τ)
        (.error ((faultAt stop us .indexExpected).after head.terms)) :=
    fun us => congrArg Except.error (faultAt_after_translate (fun _ => rfl) stop us head.terms)
  unfold readIndex
  rw [takeStepping_translate before?_translate, IndexHead.terms_translate]
  dsimp only
  cases (takeStepping before? ts).2 with
  | nil => exact hfault []
  | cons t us =>
    simp only [List.map_cons, Token.lexeme_translate]
    cases t.lexeme with
    | register r =>
      simp only [Lexeme.translate]
      split
      · rw [takeStepping_translate behind?_translate, combine_translate, nextToken_translate]
        cases combine indirect head (takeStepping before? ts).1 r t (takeStepping behind? us).1 with
        | ok i => rfl
        | error p => rfl
      · simp [Reading.translate, Fault.translate, Nat.add_right_comm, Problem.translate]
    | eof => rcases Lexeme.translate_eof τ with h | h <;> rw [h] <;> exact hfault (t :: us)
    | _ => exact hfault (t :: us)

private theorem readPlain_translate (stop : Token) (indirect : Bool) (ts : List Token) :
    readPlain (stop.translate τ) indirect (ts.map (Token.translate τ)) =
      (readPlain stop indirect ts).translate τ (PlainOperand.translate τ) := by
  unfold readPlain
  rw [accumulatorAhead?_translate, afterLexeme?_translate rfl, Expr.read_translate]
  cases accumulatorAhead? ts with
  | some p => exact readIndex_translate stop indirect (.accumulator p.1) p.2
  | none =>
    cases afterLexeme? .comma ts with
    | some rest => exact readIndex_translate stop indirect .empty rest
    | none =>
      cases Expr.read stop ts with
      | error f => rfl
      | ok p =>
        obtain ⟨e, rest⟩ := p
        dsimp only [Option.map_none, Reading.translate]
        rw [afterLexeme?_translate rfl]
        cases afterLexeme? .comma rest with
        | some rest => exact readIndex_translate stop indirect (.offset e) rest
        | none => rfl

end Operand

/-! ### Instructions -/

namespace Instruction

private theorem require_translate (m : Mnemonic) (mnemonic : Token) (mode : Mode) (index : Nat) :
    require m (mnemonic.translate τ) mode (index + τ.shift) =
      (require m mnemonic mode index).mapError (Fault.translate τ) := by
  unfold require
  cases m.form? mode <;> rfl

private theorem readMarked_translate (m : Mnemonic) (mnemonic stop : Token) (mode : Mode)
    {build : Form → Expr → Instruction}
    (hb : ∀ f e, build f (e.translate τ) = (build f e).translate τ) (ts : List Token) :
    readMarked m (mnemonic.translate τ) (stop.translate τ) mode build (ts.map (Token.translate τ)) =
      (readMarked m mnemonic stop mode build ts).translate τ (translate τ) := by
  unfold readMarked
  rw [nextToken_translate, Token.index_translate, require_translate, Expr.read_translate]
  cases require m mnemonic mode (nextToken stop ts).index with
  | error f => rfl
  | ok f =>
    cases Expr.read stop ts with
    | error f => rfl
    | ok p => exact congrArg (fun i => Except.ok (i, p.2.map (Token.translate τ))) (hb f p.1)

private theorem indirect_translate (f : Form) (operand : PlainOperand) :
    indirect f (operand.translate τ) = (indirect f operand).translate τ := by
  cases operand <;> rfl

private theorem readIndirect_translate (m : Mnemonic) (mnemonic stop : Token) (ts : List Token) :
    readIndirect m (mnemonic.translate τ) (stop.translate τ) (ts.map (Token.translate τ)) =
      (readIndirect m mnemonic stop ts).translate τ (translate τ) := by
  unfold readIndirect
  rw [Operand.readPlain_translate]
  cases Operand.readPlain stop true ts with
  | error f => rfl
  | ok p =>
    obtain ⟨operand, rest⟩ := p
    dsimp only [Reading.translate]
    rw [afterLexeme?_translate rfl, PlainOperand.terms_translate]
    cases afterLexeme? .closing rest with
    | none => exact congrArg Except.error (faultAt_after_translate (fun _ => rfl) stop rest operand.terms)
    | some rest =>
      dsimp only [Option.map_some]
      rw [nextToken_translate, Token.index_translate, require_translate]
      cases require m mnemonic .indexed (nextToken stop rest).index with
      | error f => exact congrArg Except.error (Fault.after_translate ..).symm
      | ok f => exact congrArg (fun i => Except.ok (i, _)) (indirect_translate f operand)

private theorem readUnmarked_translate (m : Mnemonic) (mnemonic stop : Token) (ts : List Token) :
    readUnmarked m (mnemonic.translate τ) (stop.translate τ) (ts.map (Token.translate τ)) =
      (readUnmarked m mnemonic stop ts).translate τ (translate τ) := by
  unfold readUnmarked
  rw [Operand.readPlain_translate]
  cases Operand.readPlain stop false ts with
  | error f => rfl
  | ok p =>
    obtain ⟨operand, rest⟩ := p
    cases operand with
    | address e => rfl
    | index i =>
      dsimp only [Reading.translate, PlainOperand.translate]
      rw [nextToken_translate, Token.index_translate, require_translate, IndexOperand.terms_translate]
      cases require m mnemonic .indexed (nextToken stop rest).index with
      | error f => exact congrArg Except.error (Fault.after_translate ..).symm
      | ok f => rfl

private theorem readGeneral_translate (m : Mnemonic) (mnemonic stop : Token) (ts : List Token) :
    readGeneral m (mnemonic.translate τ) (stop.translate τ) (ts.map (Token.translate τ)) =
      (readGeneral m mnemonic stop ts).translate τ (translate τ) := by
  cases ts with
  | nil => rfl
  | cons t rest =>
    have hplain := readUnmarked_translate (τ := τ) m mnemonic stop (t :: rest)
    unfold readGeneral
    simp only [List.map_cons, Token.lexeme_translate]
    cases t.lexeme with
    | hash => exact readMarked_translate m mnemonic stop .immediate (fun _ _ => rfl) rest
    | less => exact readMarked_translate m mnemonic stop .direct (fun _ _ => rfl) rest
    | greater => exact readMarked_translate m mnemonic stop .extended (fun _ _ => rfl) rest
    | bracket => exact readIndirect_translate m mnemonic stop rest
    | eof => rcases Lexeme.translate_eof τ with h | h <;> rw [h] <;> exact hplain
    | _ => exact hplain

private theorem readTransferRegister_translate (m : Mnemonic) (stop : Token) (ts : List Token) :
    readTransferRegister m (stop.translate τ) (ts.map (Token.translate τ)) =
      (readTransferRegister m stop ts).translate τ id := by
  cases ts with
  | nil => rfl
  | cons t ts =>
    have hfault : Except.error (faultAt (stop.translate τ) ((t :: ts).map (Token.translate τ)) (.registerExpected m)) =
        Reading.translate τ id (.error (faultAt stop (t :: ts) (.registerExpected m)) : Reading TransferRegister) :=
      congrArg Except.error (faultAt_translate (fun _ => rfl) stop (t :: ts))
    simp only [List.map_cons, readTransferRegister, Token.lexeme_translate]
    cases t.lexeme with
    | register r =>
      dsimp only [Lexeme.translate]
      cases r.transfer? with
      | some r => rfl
      | none => simp [Reading.translate, Fault.translate, Nat.add_right_comm, Problem.translate]
    | eof => rcases Lexeme.translate_eof τ with h | h <;> rw [h] <;> exact hfault
    | _ => exact hfault

private theorem readTransfer_translate (m : Mnemonic) (f : Form) (stop : Token) (ts : List Token) :
    readTransfer m f (stop.translate τ) (ts.map (Token.translate τ)) =
      (readTransfer m f stop ts).translate τ (translate τ) := by
  unfold readTransfer
  rw [readTransferRegister_translate]
  cases readTransferRegister m stop ts with
  | error f => rfl
  | ok p =>
    obtain ⟨source, rest⟩ := p
    dsimp only [Reading.translate]
    rw [afterLexeme?_translate rfl]
    cases afterLexeme? .comma rest with
    | none => exact congrArg Except.error (faultAt_translate (fun _ => rfl) stop rest)
    | some rest =>
      dsimp only [Option.map_some]
      rw [readTransferRegister_translate]
      cases readTransferRegister m stop rest <;> rfl

private theorem readStacked_translate (m : Mnemonic) (push : Bool) (own : Register) (stop : Token)
    (seen : List StackRegister) (ts : List Token) :
    readStacked m push own (stop.translate τ) seen (ts.map (Token.translate τ)) =
      (readStacked m push own stop seen ts).translate τ id := by
  fun_induction readStacked m push own stop seen ts with
  | case1 seen => rfl
  | case2 seen t ts hl =>
    simp [readStacked, hl, Reading.translate, Fault.translate, Nat.add_right_comm, Problem.translate]
  | case3 seen t ts r hl hr hs =>
    simp [readStacked, hl, hr, hs, Reading.translate, Fault.translate, Nat.add_right_comm, Problem.translate]
  | case4 seen t r hl hr s hs u us hu ih =>
    have hu' : u.lexeme.translate τ = .comma := (Lexeme.translate_eq_iff rfl _).2 hu
    simpa [readStacked, hl, hr, hs, hu'] using ih
  | case5 seen t r hl hr s hs u us hu =>
    have hu' : u.lexeme.translate τ ≠ .comma := mt (Lexeme.translate_eq_iff rfl _).1 hu
    simp [readStacked, hl, hr, hs, hu', Reading.translate]
  | case6 seen t r hl hr s hs => simp [readStacked, hl, hr, hs, Reading.translate]
  | case7 seen t ts hl =>
    have hfault : faultAt (stop.translate τ) ((t :: ts).map (Token.translate τ)) (.registerListExpected m) =
        (faultAt stop (t :: ts) (.registerListExpected m)).translate τ :=
      faultAt_translate (fun _ => rfl) stop (t :: ts)
    simp only [List.map_cons, readStacked, Token.lexeme_translate]
    cases h : t.lexeme with
    | register r => exact absurd h (hl r)
    | eof => rcases Lexeme.translate_eof τ with h | h <;> rw [h] <;> exact congrArg Except.error hfault
    | _ => exact congrArg Except.error hfault

private theorem readBranch_translate (m : Mnemonic) (f : Form) (stop : Token) (ts : List Token) :
    readBranch m f (stop.translate τ) (ts.map (Token.translate τ)) =
      (readBranch m f stop ts).translate τ (translate τ) := by
  cases ts with
  | nil => rfl
  | cons t ts =>
    have hfault : Except.error (faultAt (stop.translate τ) ((t :: ts).map (Token.translate τ)) (.labelExpected m)) =
        Reading.translate τ (translate τ) (.error (faultAt stop (t :: ts) (.labelExpected m))) :=
      congrArg Except.error (faultAt_translate (fun _ => rfl) stop (t :: ts))
    simp only [List.map_cons, readBranch, Token.lexeme_translate]
    cases t.lexeme with
    | identifier name => rfl
    | eof => rcases Lexeme.translate_eof τ with h | h <;> rw [h] <;> exact hfault
    | _ => exact hfault

private theorem read_translate (m : Mnemonic) (mnemonic stop : Token) (ts : List Token) :
    read m (mnemonic.translate τ) (stop.translate τ) (ts.map (Token.translate τ)) =
      (read m mnemonic stop ts).translate τ (translate τ) := by
  unfold read
  cases m.pattern with
  | inherent f =>
    cases ts with
    | nil => rfl
    | cons t ts => exact congrArg Except.error (faultAt_translate (fun _ => rfl) stop (t :: ts))
  | branch f => exact readBranch_translate m f stop ts
  | transfer f => exact readTransfer_translate m f stop ts
  | stack f push own =>
    dsimp only
    rw [readStacked_translate]
    cases readStacked m push own stop [] ts <;> rfl
  | general => exact readGeneral_translate m mnemonic stop ts

end Instruction

/-! ### Scripts -/

private theorem Action.isText_translate (a : Action) : (a.translate τ).isText = a.isText := by
  cases a <;> rfl

namespace Script

private theorem cons_translate (a : Action) (s : Script) :
    (s.cons a).translate τ = (s.translate τ).cons (a.translate τ) :=
  rfl

private theorem single_translate {action action' : Expr → Action}
    (h : ∀ e : Expr, action' (e.translate τ) = (action e).translate τ) (stop : Token) (ts : List Token) :
    single (stop.translate τ) (ts.map (Token.translate τ)) action' = (single stop ts action).translate τ := by
  unfold single
  rw [Expr.read_translate]
  cases Expr.read stop ts with
  | error f => rfl
  | ok p => simp [Reading.translate, translate, h]

private theorem readVariables_translate (place stop : Token) (ts : List Token) :
    readVariables (place.translate τ) (stop.translate τ) (ts.map (Token.translate τ)) =
      (readVariables place stop ts).translate τ := by
  unfold readVariables
  rw [Expr.read_translate]
  cases Expr.read stop ts with
  | error f => rfl
  | ok p =>
    dsimp only [Reading.translate]
    rw [afterLexeme?_translate rfl]
    cases afterLexeme? .comma p.2 with
    | none => rfl
    | some rest =>
      dsimp only [Option.map_some]
      rw [Expr.read_translate]
      cases Expr.read stop rest <;> rfl

private theorem readFill_translate (stop : Token) (ts : List Token) :
    readFill (stop.translate τ) (ts.map (Token.translate τ)) = (readFill stop ts).translate τ := by
  unfold readFill
  rw [Expr.read_translate]
  cases Expr.read stop ts with
  | error f => rfl
  | ok p =>
    dsimp only [Reading.translate]
    rw [afterLexeme?_translate rfl]
    cases afterLexeme? .comma p.2 with
    | none =>
      dsimp only [Option.map_none]
      rw [faultAt_translate (p := .fillCountExpected) fun _ => rfl]
      rfl
    | some rest =>
      dsimp only [Option.map_some]
      rw [Expr.read_translate]
      cases Expr.read stop rest <;> rfl

private theorem readItem_translate (cell : Cell) (drops : Bool) (d : Directive) (place stop : Token) (ts : List Token) :
    readItem cell drops d (place.translate τ) (stop.translate τ) (ts.map (Token.translate τ)) =
      (readItem cell drops d place stop ts).translate τ (Action.translate τ) := by
  cases ts with
  | nil => rfl
  | cons t rest =>
    have hvalue : (Expr.read (stop.translate τ) ((t :: rest).map (Token.translate τ))).map
          (fun p => (Action.value cell p.1, p.2)) =
        Reading.translate τ (Action.translate τ)
          ((Expr.read stop (t :: rest)).map fun p => (Action.value cell p.1, p.2)) := by
      rw [Expr.read_translate]
      cases Expr.read stop (t :: rest) <;> rfl
    unfold readItem
    simp only [List.map_cons, Token.lexeme_translate]
    cases t.lexeme with
    | text s => rfl
    | integer n =>
      simp only [Lexeme.translate, List.isEmpty_map]
      split
      · rfl
      · exact hvalue
    | eof => rcases Lexeme.translate_eof τ with h | h <;> rw [h] <;> simpa using hvalue
    | _ => simpa [Lexeme.translate] using hvalue

/-- The items of a data directive, without the proof that the tokens get fewer. -/
theorem readItems_eq (cell : Cell) (drops : Bool) (d : Directive) (place stop : Token) (afterText : Bool)
    (ts : List Token) :
    readItems cell drops d place stop afterText ts =
      match readItem cell (drops && afterText) d place stop ts with
      | .error f => ⟨[], .error f⟩
      | .ok (a, rest) =>
        match afterLexeme? .comma rest with
        | none => ⟨[a], .ok rest⟩
        | some rest => (readItems cell drops d place stop a.isText rest).cons a := by
  rw [readItems]
  split
  · next h => rw [h]
  · next h =>
    rw [h]
    dsimp only
    split
    · next hc => rw [hc]
    · next hc => rw [hc]

private theorem readItems_translate (cell : Cell) (drops : Bool) (d : Directive) (place stop : Token) (afterText : Bool)
    (ts : List Token) :
    readItems cell drops d (place.translate τ) (stop.translate τ) afterText (ts.map (Token.translate τ)) =
      (readItems cell drops d place stop afterText ts).translate τ := by
  fun_induction readItems cell drops d place stop afterText ts with
  | case1 afterText ts f h =>
    rw [readItems_eq, readItem_translate, h]
    rfl
  | case2 afterText ts a rest h hc =>
    rw [readItems_eq, readItem_translate, h]
    dsimp only [Reading.translate]
    rw [afterLexeme?_translate rfl, hc]
    rfl
  | case3 afterText ts a rest h rest' hc ih =>
    rw [readItems_eq, readItem_translate, h]
    dsimp only [Reading.translate]
    rw [afterLexeme?_translate rfl, hc]
    dsimp only [Option.map_some]
    rw [Action.isText_translate, ih, cons_translate]

/-- Definitions from behind the first equal sign on. -/
def readDefinitions (name : String) (place stop : Token) (ts : List Token) : Script :=
  match Expr.read stop ts with
  | .error f => ⟨[], .error f.requiring⟩
  | .ok (e, rest) =>
    match afterLexeme? .comma rest with
    | none => ⟨[.define name place e], .ok rest⟩
    | some rest => (readConstants stop rest).cons (.define name place e)

private theorem readConstants_of_equal {t : Token} {name : String} (hl : t.lexeme = .identifier name)
    {ts rest : List Token} (he : afterLexeme? .equal ts = some rest) (stop : Token) :
    readConstants stop (t :: ts) = readDefinitions name t stop rest := by
  rw [readConstants, hl]
  dsimp only
  split
  · next h => cases h.symm.trans he
  · next h =>
    cases h.symm.trans he
    unfold readDefinitions
    split
    · next h => rw [h]
    · next h =>
      rw [h]
      dsimp only
      split
      · next h => rw [h]
      · next h => rw [h]

private theorem readConstants_of_none {t : Token} {name : String} (hl : t.lexeme = .identifier name) {ts : List Token}
    (he : afterLexeme? .equal ts = none) (stop : Token) :
    readConstants stop (t :: ts) = ⟨[], .error (faultAt stop ts (.equalExpected name))⟩ := by
  rw [readConstants, hl]
  dsimp only
  split
  · rfl
  · next h => cases h.symm.trans he

private theorem readConstants_of_other {t : Token} (hl : ∀ name, t.lexeme ≠ .identifier name) (stop : Token)
    (ts : List Token) :
    readConstants stop (t :: ts) = ⟨[], .error (faultAt stop (t :: ts) .nameExpected)⟩ := by
  rw [readConstants]
  split
  · next name h => exact absurd h (hl name)
  · rfl

/-- Definitions are translated if those behind the first one are. -/
private theorem readDefinitions_translate (name : String) (place stop : Token) {ts : List Token}
    (h : ∀ rest : List Token, rest.length < ts.length →
      readConstants (stop.translate τ) (rest.map (Token.translate τ)) = (readConstants stop rest).translate τ) :
    readDefinitions (τ.name name) (place.translate τ) (stop.translate τ) (ts.map (Token.translate τ)) =
      (readDefinitions name place stop ts).translate τ := by
  unfold readDefinitions
  rw [Expr.read_translate]
  cases he : Expr.read stop ts with
  | error f => rfl
  | ok p =>
    obtain ⟨e, rest⟩ := p
    dsimp only [Reading.translate]
    rw [afterLexeme?_translate rfl]
    cases hc : afterLexeme? .comma rest with
    | none => rfl
    | some rest' =>
      have hlength : rest'.length < ts.length :=
        Nat.lt_trans (afterLexeme?_length hc) (Expr.read_rest_length he)
      dsimp only [Option.map_some]
      rw [h rest' hlength]
      rfl

private theorem readConstants_translate (stop : Token) (ts : List Token) :
    readConstants (stop.translate τ) (ts.map (Token.translate τ)) = (readConstants stop ts).translate τ := by
  induction hn : ts.length using Nat.strongRecOn generalizing ts with
  | ind n ih =>
    subst hn
    cases ts with
    | nil => simp [readConstants, translate, faultAt, nextToken, Fault.translate, Problem.translate]
    | cons t ts =>
      by_cases hl : ∃ name, t.lexeme = .identifier name
      · obtain ⟨name, hl⟩ := hl
        have hl' : (t.translate τ).lexeme = .identifier (τ.name name) := congrArg (Lexeme.translate τ) hl
        have he' := afterLexeme?_translate (τ := τ) (l := .equal) rfl ts
        rcases he : afterLexeme? .equal ts with _ | rest
        · rw [he] at he'
          rw [List.map_cons, readConstants_of_none hl' he', readConstants_of_none hl he,
            faultAt_translate (p := .equalExpected name) fun _ => rfl]
          rfl
        · rw [he] at he'
          rw [List.map_cons, readConstants_of_equal hl' he', readConstants_of_equal hl he]
          refine readDefinitions_translate name t stop fun rest' hlength => ih _ ?_ rest' rfl
          exact Nat.lt_trans hlength (Nat.lt_succ_of_lt (afterLexeme?_length he))
      · have hne : ∀ name, t.lexeme ≠ .identifier name := fun name h => hl ⟨name, h⟩
        rw [readConstants_of_other hne, List.map_cons, readConstants_of_other (Lexeme.translate_ne_identifier hne),
          ← List.map_cons, faultAt_translate (p := .nameExpected) fun _ => rfl]
        rfl

private theorem readNamed_translate (name : String) (place stop : Token) (ts : List Token) :
    readNamed (τ.name name) (place.translate τ) (stop.translate τ) (ts.map (Token.translate τ)) =
      (readNamed name place stop ts).translate τ := by
  unfold readNamed
  rw [afterLexeme?_translate rfl, afterLexeme?_translate rfl, nextToken_translate]
  cases afterLexeme? .equal ts with
  | some rest => exact readDefinitions_translate name place stop fun rest' _ => readConstants_translate stop rest'
  | none =>
    cases afterLexeme? (.directive .equ) ts with
    | some rest => exact single_translate (fun _ => rfl) stop rest
    | none => rfl

private theorem readDirective_translate (d : Directive) (place stop : Token) (ts : List Token) :
    readDirective d (place.translate τ) (stop.translate τ) (ts.map (Token.translate τ)) =
      (readDirective d place stop ts).translate τ := by
  cases d with
  | stop => rfl
  | const => exact readConstants_translate stop ts
  | equ => exact readConstants_translate stop ts
  | var => exact readVariables_translate place stop ts
  | fill => exact readFill_translate stop ts
  | db | fcb | byteList | fcc | dw | fdb | wordList => exact readItems_translate ..
  | _ => exact single_translate (fun _ => rfl) stop ts

private theorem readInstruction_translate (m : Mnemonic) (mnemonic stop : Token) (ts : List Token) :
    readInstruction m (mnemonic.translate τ) (stop.translate τ) (ts.map (Token.translate τ)) =
      (readInstruction m mnemonic stop ts).translate τ := by
  unfold readInstruction
  rw [Instruction.read_translate]
  cases Instruction.read m mnemonic stop ts with
  | error f => rfl
  | ok p =>
    dsimp only [Reading.translate]
    rw [nextToken_translate]
    rfl

private theorem fault?_translate (stop : Token) (s : Script) :
    (s.translate τ).fault? (stop.translate τ) = (s.fault? stop).map (Fault.translate τ) := by
  obtain ⟨actions, ending⟩ := s
  unfold fault? translate
  rcases ending with f | (_ | ⟨t, ts⟩)
  · rfl
  · rfl
  · exact congrArg some (faultAt_translate (fun _ => rfl) stop (t :: ts))

end Script

/-! ### Statements -/

namespace Statement

private theorem readBody_translate (stop : Token) (ts : List Token) :
    readBody (stop.translate τ) (ts.map (Token.translate τ)) =
      ((readBody stop ts).1, (readBody stop ts).2.translate τ) := by
  cases ts with
  | nil => rfl
  | cons t ts =>
    have hstray : (faultAt (stop.translate τ) ((t :: ts).map (Token.translate τ)) .strayStart) =
        (faultAt stop (t :: ts) .strayStart).translate τ := faultAt_translate (fun _ => rfl) stop (t :: ts)
    simp only [List.map_cons, readBody, Token.lexeme_translate]
    cases t.lexeme with
    | directive d => exact congrArg (Prod.mk _) (Script.readDirective_translate d t stop ts)
    | opcode m => exact congrArg (Prod.mk _) (Script.readInstruction_translate m t stop ts)
    | identifier name => exact congrArg (Prod.mk _) (Script.readNamed_translate name t stop ts)
    | eof =>
      rcases Lexeme.translate_eof τ with h | h <;> rw [h] <;>
        exact congrArg (fun f => (false, (⟨[], .error f⟩ : Script))) hstray
    | _ => exact congrArg (fun f => (false, (⟨[], .error f⟩ : Script))) hstray

private theorem read_translate (stop first : Token) (ts : List Token) :
    read (stop.translate τ) (first.translate τ) (ts.map (Token.translate τ)) = (read stop first ts).translate τ := by
  have hbody := readBody_translate (τ := τ) stop (first :: ts)
  have hother : (⟨first.translate τ, none, (readBody stop (first :: ts)).1,
      ((readBody stop (first :: ts)).2.translate τ).actions,
      ((readBody stop (first :: ts)).2.translate τ).fault? (stop.translate τ)⟩ : Statement) =
      translate τ ⟨first, none, (readBody stop (first :: ts)).1, (readBody stop (first :: ts)).2.actions,
        (readBody stop (first :: ts)).2.fault? stop⟩ := by
    rw [Script.fault?_translate]
    rfl
  unfold read
  rw [Token.lexeme_translate, ← List.map_cons, hbody]
  cases first.lexeme with
  | label name =>
    dsimp only [Lexeme.translate]
    rw [readBody_translate, Script.fault?_translate]
    rfl
  | eof => rcases Lexeme.translate_eof τ with h | h <;> rw [h] <;> exact hother
  | _ => exact hother

end Statement

theorem Line.statement?_translate (l : Line) :
    (l.translate τ).statement? = l.statement?.map (Statement.translate τ) := by
  obtain ⟨body, stop⟩ := l
  cases body with
  | nil => rfl
  | cons first ts => exact congrArg some (Statement.read_translate stop first ts)

/-! ### Lines -/

private theorem Lexeme.translate_eq_newline_iff (h : τ.continued = false) (l : Lexeme) :
    l.translate τ = .newline ↔ l = .newline := by
  cases l <;> simp [translate, h]

private theorem Lexeme.translate_eq_eof_iff (h : τ.continued = false) (l : Lexeme) :
    l.translate τ = .eof ↔ l = .eof := by
  cases l <;> simp [translate, h]

/-- Tokens are cut into the same lines if the end of the source is kept. -/
theorem Line.split_translate (h : τ.continued = false) (tokens : List Token) :
    split (tokens.map (Token.translate τ)) = (split tokens).map (translate τ) := by
  suffices hfrom : ∀ body, splitFrom (body.map (Token.translate τ)) (tokens.map (Token.translate τ)) =
      (splitFrom body tokens).map (translate τ) from hfrom []
  induction tokens with
  | nil => exact fun _ => rfl
  | cons t ts ih =>
    intro body
    have hnext := ih (body ++ [t])
    rw [List.map_append] at hnext
    simp only [List.map_cons, splitFrom, Token.lexeme_translate, Lexeme.translate_eq_newline_iff h,
      Lexeme.translate_eq_eof_iff h]
    split
    · exact congrArg (List.cons _) (ih [])
    · split
      · cases body <;> rfl
      · exact hnext

end Mc6809
