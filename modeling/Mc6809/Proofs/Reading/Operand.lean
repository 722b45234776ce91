import Mc6809.Proofs.Reading.Basic

/-!
# What operands are read from

The readers of operands take the tokens that the operand mentions, and their faults are on the line
(`Instruction.read_takes`, `Instruction.read_within`).
-/

namespace Mc6809

variable {stop : Token} {ts rest : List Token}

namespace Operand

private theorem takes_of_accumulatorAhead? {acc : Accumulator} (h : accumulatorAhead? ts = some (acc, rest)) :
    Takes ts rest [] [] := by
  cases ts with
  | nil => cases h
  | cons t ts =>
    simp only [accumulatorAhead?] at h
    split at h
    · next r mid hr hc =>
      obtain ⟨_, -, hacc⟩ := Option.map_eq_some_iff.1 h
      cases hacc
      exact ((takes_of_afterLexeme? hc (by simp)).skip (Token.identifier?_of_register hr)).mono (by simp)
    · cases h

/-- Signs that ask for stepping are no names. -/
private theorem takeStepping_takes {asks : Lexeme → Option Stepping} (hasks : ∀ name, asks (.identifier name) = none)
    {mark : Option (Stepping × Token)} (h : takeStepping asks ts = (mark, rest)) :
    Takes ts rest (mark.toList.map Prod.snd) [] := by
  cases ts with
  | nil =>
    cases h
    exact .refl _
  | cons t ts =>
    simp only [takeStepping] at h
    split at h
    · next s hs =>
      cases h
      have hnone : t.identifier? = none := Token.identifier?_eq_none fun name hn => by
        rw [hn, hasks] at hs
        cases hs
      exact (Takes.refl _).skip hnone
    · cases h
      exact .refl _

private theorem expr?_of_combine {indirect : Bool} {head : IndexHead} {before behind : Option (Stepping × Token)}
    {r : Register} {t : Token} {i : IndexOperand} (h : combine indirect head before r t behind = .ok i) :
    i.expr? = head.expr? := by
  unfold combine at h
  split at h
  · cases h
  · split at h
    · split at h
      · cases h
      · cases h
        rfl
    · cases h
    · cases h
  · split at h
    · split at h
      · cases h
      · cases h
        rfl
    · cases h
    · cases h
  · split at h
    · cases h
      rfl
    · cases h
      rfl
    · cases h
      rfl
    · cases h
      split <;> rfl
    · cases h
    · cases h

/-- A combination is refused at its register or at a stepping sign. -/
private theorem place_of_combine {indirect : Bool} {head : IndexHead} {before behind : Option (Stepping × Token)}
    {r : Register} {t place : Token} {problem : Problem}
    (h : combine indirect head before r t behind = .error (problem, place)) :
    place ∈ before.toList.map Prod.snd ∨ place = t ∨ place ∈ behind.toList.map Prod.snd := by
  unfold combine at h
  split at h
  · cases h
    simp
  · split at h
    · split at h
      · cases h
        simp
      · cases h
    · cases h
      simp
    · cases h
      simp
  · split at h
    · split at h
      · cases h
        simp
      · cases h
    · cases h
      simp
    · cases h
      simp
  · split at h
    · cases h
    · cases h
    · cases h
    · cases h
    · cases h
      simp
    · cases h
      simp

private theorem readIndex_takes {indirect : Bool} {head : IndexHead} {operand : PlainOperand}
    (h : readIndex stop indirect head ts = .ok (operand, rest)) :
    Takes ts rest [] [] ∧ operand.expr? = head.expr? := by
  unfold readIndex at h
  rcases hbefore : takeStepping before? ts with ⟨before, us⟩
  have htake := takeStepping_takes (fun _ => rfl) hbefore
  simp only [hbefore] at h
  split at h
  · cases h
  · next t us =>
    split at h
    · next r hr =>
      split at h
      · rcases hbehind : takeStepping behind? us with ⟨behind, vs⟩
        have htake' := takeStepping_takes (fun _ => rfl) hbehind
        simp only [hbehind] at h
        split at h
        · next i hi =>
          cases h
          exact ⟨(htake.trans (htake'.skip (Token.identifier?_of_register hr))).mono (by simp), expr?_of_combine hi⟩
        · cases h
      · cases h
    · cases h

private theorem readIndex_within {indirect : Bool} {head : IndexHead} {f : Fault} (hb : Precede ts stop)
    (h : readIndex stop indirect head ts = .error f) :
    (f.token ∈ ts ∨ f.token = stop) ∧ f.index ≤ stop.index ∧ f.seen = head.terms := by
  unfold readIndex at h
  rcases hbefore : takeStepping before? ts with ⟨before, us⟩
  have htake := takeStepping_takes (fun _ => rfl) hbefore
  have hb' : Precede us stop := hb.mono htake.rest_mem
  have hfault := (faultAt_within hb' .indexExpected).mono htake.rest_mem
  simp only [hbefore] at h
  split at h
  · cases h
    exact ⟨hfault.token, hfault.index, List.append_nil _⟩
  · next t us =>
    have hus : ∀ u ∈ t :: us, u ∈ ts := htake.rest_mem
    split at h
    · next r hr =>
      split at h
      · rcases hbehind : takeStepping behind? us with ⟨behind, vs⟩
        have htake' := takeStepping_takes (fun _ => rfl) hbehind
        simp only [hbehind] at h
        split at h
        · cases h
        · next problem place hp =>
          cases h
          have hvs : ∀ u ∈ vs, u ∈ ts := fun u hu => hus u (List.mem_cons_of_mem _ (htake'.rest_mem u hu))
          refine ⟨.inl ?_, index_nextToken_le (hb.mono hvs), rfl⟩
          rcases place_of_combine hp with hm | rfl | hm
          · exact htake.mem _ hm
          · exact hus _ (List.mem_cons_self ..)
          · exact hus _ (List.mem_cons_of_mem _ (htake'.mem _ hm))
      · cases h
        exact ⟨.inl (hus _ (List.mem_cons_self ..)), hb' _ (List.mem_cons_self ..), rfl⟩
    · cases h
      exact ⟨hfault.token, hfault.index, List.append_nil _⟩

theorem readPlain_takes {indirect : Bool} {operand : PlainOperand}
    (h : readPlain stop indirect ts = .ok (operand, rest)) : Takes ts rest operand.tokens operand.names := by
  unfold readPlain at h
  split at h
  · next acc mid hacc =>
    obtain ⟨ht, he⟩ := readIndex_takes h
    have := (takes_of_accumulatorAhead? hacc).trans ht
    simpa [PlainOperand.tokens, PlainOperand.names, he, IndexHead.expr?] using this
  · next mid _ hcomma =>
    obtain ⟨ht, he⟩ := readIndex_takes h
    have := (takes_of_afterLexeme? hcomma (by simp)).trans ht
    simpa [PlainOperand.tokens, PlainOperand.names, he, IndexHead.expr?] using this
  · split at h
    · cases h
    · next e mid hr =>
      have hexpr := Expr.read_takes hr
      split at h
      · next mid' hcomma =>
        obtain ⟨ht, he⟩ := readIndex_takes h
        have := hexpr.trans ((takes_of_afterLexeme? hcomma (by simp)).trans ht)
        simpa [PlainOperand.tokens, PlainOperand.names, he, IndexHead.expr?] using this
      · cases h
        simpa [PlainOperand.tokens, PlainOperand.names, PlainOperand.expr?] using hexpr

private theorem readPlain_within {indirect : Bool} {f : Fault} (hb : Precede ts stop)
    (h : readPlain stop indirect ts = .error f) : f.Within stop ts := by
  have hindex : ∀ {mid : List Token} {head : IndexHead}, (∀ t ∈ mid, t ∈ ts) → (∀ x ∈ head.terms, x.token ∈ ts) →
      readIndex stop indirect head mid = .error f → f.Within stop ts := by
    intro mid head hmid hterms h
    obtain ⟨ht, hi, hs⟩ := readIndex_within (hb.mono hmid) h
    exact ⟨ht.imp_left (hmid _), hi, fun x hx => hterms x (hs ▸ hx)⟩
  unfold readPlain at h
  split at h
  · next acc mid hacc => exact hindex (takes_of_accumulatorAhead? hacc).rest_mem (by simp [IndexHead.terms]) h
  · next mid _ hcomma =>
    exact hindex (takes_of_afterLexeme? hcomma (by simp)).rest_mem (by simp [IndexHead.terms]) h
  · split at h
    · cases h
      exact Expr.read_within hb ‹_›
    · next e mid hr =>
      have hexpr := Expr.read_takes hr
      split at h
      · next mid' hcomma =>
        refine hindex (fun t ht => hexpr.rest_mem t ((takes_of_afterLexeme? hcomma (by simp)).rest_mem t ht)) ?_ h
        exact fun x hx => hexpr.mem _ (Expr.term_token_mem hx)
      · cases h

end Operand

namespace Instruction

variable {m : Mnemonic} {mnemonic : Token} {i : Instruction} {f : Fault}

private theorem require_within {mode : Mode} {index : Nat} (hi : index ≤ stop.index)
    (h : require m mnemonic mode index = .error f) : f.Within stop (mnemonic :: ts) := by
  unfold require at h
  split at h
  · cases h
  · cases h
    exact ⟨.inl (List.mem_cons_self ..), hi, by simp⟩

private theorem readMarked_takes {mode : Mode} {build : Form → Expr → Instruction}
    (hbuild : ∀ f e, (build f e).tokens = e.tokens ∧ (build f e).names = e.names)
    (h : readMarked m mnemonic stop mode build ts = .ok (i, rest)) : Takes ts rest i.tokens i.names := by
  unfold readMarked at h
  split at h
  · cases h
  · next f _ =>
    cases hr : Expr.read stop ts with
    | error g =>
      rw [hr] at h
      cases h
    | ok p =>
      rw [hr] at h
      cases h
      rw [(hbuild _ _).1, (hbuild _ _).2]
      exact Expr.read_takes hr

private theorem readMarked_within {mode : Mode} {build : Form → Expr → Instruction} (hb : Precede ts stop)
    (h : readMarked m mnemonic stop mode build ts = .error f) : f.Within stop (mnemonic :: ts) := by
  unfold readMarked at h
  split at h
  · next g hg =>
    cases h
    exact require_within (index_nextToken_le hb) hg
  · cases hr : Expr.read stop ts with
    | ok p =>
      rw [hr] at h
      cases h
    | error g =>
      rw [hr] at h
      cases h
      exact (Expr.read_within hb hr).mono fun t ht => List.mem_cons_of_mem _ ht

private theorem tokens_indirect (f : Form) (operand : PlainOperand) :
    (indirect f operand).tokens = operand.tokens ∧ (indirect f operand).names = operand.names := by
  cases operand <;> exact ⟨rfl, rfl⟩

private theorem readIndirect_takes (h : readIndirect m mnemonic stop ts = .ok (i, rest)) :
    Takes ts rest i.tokens i.names := by
  unfold readIndirect at h
  split at h
  · cases h
  · next operand mid hr =>
    split at h
    · cases h
    · next mid' hclose =>
      split at h
      · cases h
      · next f _ =>
        cases h
        rw [(tokens_indirect f operand).1, (tokens_indirect f operand).2]
        have := (Operand.readPlain_takes hr).trans (takes_of_afterLexeme? hclose (by simp))
        simpa using this

private theorem terms_mem (operand : PlainOperand) {x : Term} (hx : x ∈ operand.terms) :
    x.token ∈ operand.tokens := by
  cases operand with
  | address e => exact List.mem_flatMap.2 ⟨e, List.mem_singleton_self e, Expr.term_token_mem hx⟩
  | index o =>
    cases o with
    | offset e => exact List.mem_flatMap.2 ⟨e, List.mem_singleton_self e, Expr.term_token_mem hx⟩
    | counter e => exact List.mem_flatMap.2 ⟨e, List.mem_singleton_self e, Expr.term_token_mem hx⟩
    | target e => exact List.mem_flatMap.2 ⟨e, List.mem_singleton_self e, Expr.term_token_mem hx⟩
    | _ => cases hx

private theorem readIndirect_within (hb : Precede ts stop) (h : readIndirect m mnemonic stop ts = .error f) :
    f.Within stop (mnemonic :: ts) := by
  unfold readIndirect at h
  split at h
  · cases h
    exact (Operand.readPlain_within hb ‹_›).mono fun t ht => List.mem_cons_of_mem _ ht
  · next operand mid hr =>
    have htake := Operand.readPlain_takes hr
    have hterms : ∀ x ∈ operand.terms, x.token ∈ mnemonic :: ts :=
      fun x hx => List.mem_cons_of_mem _ (htake.mem _ (terms_mem operand hx))
    split at h
    · cases h
      refine ((faultAt_within (hb.mono htake.rest_mem) .closingExpected).mono ?_).after hterms
      exact fun t ht => List.mem_cons_of_mem _ (htake.rest_mem t ht)
    · next mid' hclose =>
      have hmid : ∀ t ∈ mid', t ∈ ts :=
        fun t ht => htake.rest_mem t ((takes_of_afterLexeme? hclose (by simp)).rest_mem t ht)
      split at h
      · next g hg =>
        cases h
        exact (require_within (index_nextToken_le (hb.mono hmid)) hg).after hterms
      · cases h

private theorem readUnmarked_takes (h : readUnmarked m mnemonic stop ts = .ok (i, rest)) :
    Takes ts rest i.tokens i.names := by
  unfold readUnmarked at h
  split at h
  · cases h
  · next e mid hr =>
    cases h
    exact Operand.readPlain_takes hr
  · next o mid hr =>
    split at h
    · cases h
    · cases h
      exact Operand.readPlain_takes hr

private theorem readUnmarked_within (hb : Precede ts stop) (h : readUnmarked m mnemonic stop ts = .error f) :
    f.Within stop (mnemonic :: ts) := by
  unfold readUnmarked at h
  split at h
  · cases h
    exact (Operand.readPlain_within hb ‹_›).mono fun t ht => List.mem_cons_of_mem _ ht
  · cases h
  · next o mid hr =>
    have htake := Operand.readPlain_takes hr
    split at h
    · next g hg =>
      cases h
      refine (require_within (index_nextToken_le (hb.mono htake.rest_mem)) hg).after fun x hx => ?_
      exact List.mem_cons_of_mem _ (htake.mem _ (terms_mem (.index o) hx))
    · cases h

private theorem readGeneral_takes (h : readGeneral m mnemonic stop ts = .ok (i, rest)) :
    Takes ts rest i.tokens i.names := by
  unfold readGeneral at h
  split at h
  · cases h
  · next t ts =>
    have hmark : ∀ {l : Lexeme}, t.lexeme = l → (∀ name, l ≠ .identifier name) → Takes ts rest i.tokens i.names →
        Takes (t :: ts) rest i.tokens i.names := by
      intro l hl hn ht
      have hnone : t.identifier? = none := Token.identifier?_eq_none fun name => hl ▸ hn name
      exact (ht.skip hnone).mono fun u hu => List.mem_cons_of_mem _ hu
    split at h
    · next hl => exact hmark hl (by simp) (readMarked_takes (fun _ _ => ⟨List.append_nil _, List.append_nil _⟩) h)
    · next hl => exact hmark hl (by simp) (readMarked_takes (fun _ _ => ⟨List.append_nil _, List.append_nil _⟩) h)
    · next hl => exact hmark hl (by simp) (readMarked_takes (fun _ _ => ⟨List.append_nil _, List.append_nil _⟩) h)
    · next hl => exact hmark hl (by simp) (readIndirect_takes h)
    · exact readUnmarked_takes h

private theorem readGeneral_within (hb : Precede ts stop) (h : readGeneral m mnemonic stop ts = .error f) :
    f.Within stop (mnemonic :: ts) := by
  unfold readGeneral at h
  split at h
  · cases h
    exact (faultAt_within hb _).mono (by simp)
  · next t ts =>
    have hb' : Precede ts stop := hb.mono fun u hu => List.mem_cons_of_mem _ hu
    have hsub : ∀ u ∈ mnemonic :: ts, u ∈ mnemonic :: t :: ts := by simp +contextual
    split at h
    · exact (readMarked_within hb' h).mono hsub
    · exact (readMarked_within hb' h).mono hsub
    · exact (readMarked_within hb' h).mono hsub
    · exact (readIndirect_within hb' h).mono hsub
    · exact readUnmarked_within hb h

private theorem readTransferRegister_takes {r : TransferRegister}
    (h : readTransferRegister m stop ts = .ok (r, rest)) : Takes ts rest [] [] := by
  cases ts with
  | nil => cases h
  | cons t ts =>
    simp only [readTransferRegister] at h
    split at h
    · next r hr =>
      split at h
      · cases h
        exact ((Takes.refl _).skip (Token.identifier?_of_register hr)).mono (by simp)
      · cases h
    · cases h

private theorem readTransferRegister_within (hb : Precede ts stop)
    (h : readTransferRegister m stop ts = .error f) : f.Within stop ts := by
  cases ts with
  | nil =>
    cases h
    exact faultAt_within hb _
  | cons t ts =>
    simp only [readTransferRegister] at h
    split at h
    · split at h
      · cases h
      · cases h
        exact ⟨.inl (List.mem_cons_self ..), hb _ (List.mem_cons_self ..), by simp⟩
    · cases h
      exact faultAt_within hb _

private theorem readTransfer_takes {form : Form} (h : readTransfer m form stop ts = .ok (i, rest)) :
    Takes ts rest i.tokens i.names := by
  unfold readTransfer at h
  split at h
  · cases h
  · next source mid hs =>
    split at h
    · cases h
    · next mid' hcomma =>
      cases hr : readTransferRegister m stop mid' with
      | error g =>
        rw [hr] at h
        cases h
      | ok p =>
        rw [hr] at h
        cases h
        exact (readTransferRegister_takes hs).trans
          ((takes_of_afterLexeme? hcomma (by simp)).trans (readTransferRegister_takes hr))

private theorem readTransfer_within {form : Form} (hb : Precede ts stop)
    (h : readTransfer m form stop ts = .error f) : f.Within stop ts := by
  unfold readTransfer at h
  split at h
  · cases h
    exact readTransferRegister_within hb ‹_›
  · next source mid hs =>
    have hmid := (readTransferRegister_takes hs).rest_mem
    split at h
    · cases h
      exact (faultAt_within (hb.mono hmid) _).mono hmid
    · next mid' hcomma =>
      have hmid' : ∀ t ∈ mid', t ∈ ts :=
        fun t ht => hmid t ((takes_of_afterLexeme? hcomma (by simp)).rest_mem t ht)
      cases hr : readTransferRegister m stop mid' with
      | ok p =>
        rw [hr] at h
        cases h
      | error g =>
        rw [hr] at h
        cases h
        exact (readTransferRegister_within (hb.mono hmid') hr).mono hmid'

private theorem readStacked_takes {push : Bool} {own : Register} {seen rs : List StackRegister}
    (h : readStacked m push own stop seen ts = .ok (rs, rest)) : Takes ts rest [] [] := by
  fun_induction readStacked m push own stop seen ts with
  | case1 => cases h
  | case2 => cases h
  | case3 => cases h
  | case4 seen t r hr _ s _ u us hcomma ih =>
    have hnone : u.identifier? = none := Token.identifier?_eq_none (by simp [hcomma])
    exact (((ih h).skip hnone).skip (Token.identifier?_of_register hr)).mono (by simp)
  | case5 seen t r hr _ s _ u us hcomma =>
    cases h
    exact ((Takes.refl _).skip (Token.identifier?_of_register hr)).mono (by simp)
  | case6 seen t r hr =>
    cases h
    exact ((Takes.refl _).skip (Token.identifier?_of_register hr)).mono (by simp)
  | case7 => cases h

private theorem readStacked_within {push : Bool} {own : Register} {seen : List StackRegister}
    (hb : Precede ts stop) (h : readStacked m push own stop seen ts = .error f) : f.Within stop ts := by
  fun_induction readStacked m push own stop seen ts with
  | case1 =>
    cases h
    exact faultAt_within hb _
  | case2 =>
    cases h
    exact ⟨.inl (List.mem_cons_self ..), hb _ (List.mem_cons_self ..), by simp⟩
  | case3 =>
    cases h
    exact ⟨.inl (List.mem_cons_self ..), hb _ (List.mem_cons_self ..), by simp⟩
  | case4 seen t r hr _ s _ u us hcomma ih =>
    have hus : ∀ v ∈ us, v ∈ t :: u :: us := by simp +contextual
    exact (ih (hb.mono hus) h).mono hus
  | case5 => cases h
  | case6 => cases h
  | case7 =>
    cases h
    exact faultAt_within hb _

private theorem readBranch_takes {form : Form} (h : readBranch m form stop ts = .ok (i, rest)) :
    Takes ts rest i.tokens i.names := by
  unfold readBranch at h
  split at h
  · cases h
  · next t ts =>
    split at h
    · next name hn =>
      cases h
      have := Takes.head t rest
      rw [Token.identifier?, hn] at this
      exact this
    · cases h

private theorem readBranch_within {form : Form} (hb : Precede ts stop) (h : readBranch m form stop ts = .error f) :
    f.Within stop ts := by
  unfold readBranch at h
  split at h
  · cases h
    exact faultAt_within hb _
  · split at h
    · cases h
    · cases h
      exact faultAt_within hb _

theorem read_takes (h : read m mnemonic stop ts = .ok (i, rest)) : Takes ts rest i.tokens i.names := by
  unfold read at h
  split at h
  · split at h
    · next hts =>
      cases h
      rw [hts]
      exact .refl _
    · cases h
  · exact readBranch_takes h
  · exact readTransfer_takes h
  · next form push own _ =>
    cases hr : readStacked m push own stop [] ts with
    | error g =>
      rw [hr] at h
      cases h
    | ok p =>
      rw [hr] at h
      cases h
      exact readStacked_takes hr
  · exact readGeneral_takes h

theorem read_within (hb : Precede ts stop) (h : read m mnemonic stop ts = .error f) :
    f.Within stop (mnemonic :: ts) := by
  have hsub : ∀ t ∈ ts, t ∈ mnemonic :: ts := fun t ht => List.mem_cons_of_mem _ ht
  unfold read at h
  split at h
  · split at h
    · cases h
    · cases h
      exact (faultAt_within hb _).mono hsub
  · exact (readBranch_within hb h).mono hsub
  · exact (readTransfer_within hb h).mono hsub
  · next form push own _ =>
    cases hr : readStacked m push own stop [] ts with
    | ok p =>
      rw [hr] at h
      cases h
    | error g =>
      rw [hr] at h
      cases h
      exact (readStacked_within hb hr).mono hsub
  · exact readGeneral_within hb h

end Instruction

end Mc6809
