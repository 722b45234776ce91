import Mc6809.Proofs.LineByLine

/-!
# Only refusals

A source that is not assembled is refused with a diagnostic; nothing else can go wrong.  A failure on a line is a
refusal at one of its tokens or at its end (`Line.on_of_run`), since the only other failure, a label that the
second pass does not know, does not occur once the first pass has come to its end (`on_of_run`).
-/

namespace Mc6809

/-- A line whose label is bound, if it is the second pass, fails with a refusal on the line. -/
theorem Line.on_of_run {l : Line} {s t : State} {e : Failure} (hb : Precede l.body l.stop)
    (hlabel : s.pass = .second → ∀ first rest name, l.body = first :: rest → first.lexeme = .label name →
      ∃ address, s.symbols.labels.value? name = some address)
    (h : l.run s = .error e t) : e.On l.stop l.body := by
  rcases hl : l.statement? with _ | st
  · rw [Line.run, hl] at h
    cases h
  · rw [Line.run, hl] at h
    have hbreaks := Statement.breaks_of_run h
    refine hbreaks.on ?_ hl hb
    rintro name rfl
    obtain ⟨place, hplace, hp, hnone⟩ := hbreaks.unbound
    obtain ⟨rest, hbody, hname⟩ := Line.body_of_label hl hplace
    obtain ⟨address, hbound⟩ := hlabel hp place rest name hbody hname
    rw [hnone] at hbound
    cases hbound

/-- A run over the lines of a source fails with a refusal on one of them. -/
theorem on_of_run {source file : String} {tokens : List Token} (ht : tokenize source file = .ok tokens) {s : State}
    {e : Failure} (h : (run s (Line.split tokens)).failure = some e) :
    ∃ l ∈ Line.split tokens, e.On l.stop l.body := by
  have hnumbered := tokenize_index ht
  have hline : ∀ {s t : State} {a : Attempt}, a ∈ attempts s (Line.split tokens) →
      (s.pass = .second → a.Prepared t) → ∀ {u : State}, a.line.run a.state = .error e u →
        ∃ l ∈ Line.split tokens, e.On l.stop l.body := by
    intro s t a ha hprepared u hr
    have hmem := line_mem_of_attempts ha
    refine ⟨a.line, hmem, Line.on_of_run (Line.index_lt_stop hnumbered hmem) (fun hp => ?_) hr⟩
    exact (hprepared ((pass_of_attempts ha).symm.trans hp)).label
  unfold run at h
  rcases hw : walk (s.start .first) (Line.split tokens) with ⟨t, _ | e₁⟩
  · rw [hw] at h
    rcases hw₂ : walk t.turn (Line.split tokens) with ⟨u, _ | e₂⟩
    · simp only [hw₂] at h
      cases h
    · simp only [hw₂] at h
      cases h
      obtain ⟨a, ha, hr⟩ := attempt_of_failure hw₂
      have hprepared := (walk_eq_none_iff.1 hw).prepared rfl rfl (Line.split_apart hnumbered)
      exact hline ha (fun _ => hprepared a ha) hr
  · rw [hw] at h
    cases h
    obtain ⟨a, ha, hr⟩ := attempt_of_failure hw
    refine hline (t := t) ha (fun hp => ?_) hr
    cases hp

/-- Where a refusal of a run over the lines of a source is: at a token of the source, with another one or the same
still to be read. -/
theorem mem_of_run_failure {source file : String} {tokens : List Token} (ht : tokenize source file = .ok tokens)
    {s : State} {e : Failure} (h : (run s (Line.split tokens)).failure = some e) :
    ∃ p t i, e = .refused p t i ∧ t ∈ tokens ∧ i < tokens.length := by
  obtain ⟨l, hl, hon⟩ := on_of_run ht h
  have hstop := Line.stop_mem hl
  cases hon with
  | @refused p t i hmem hi =>
    refine ⟨p, t, i, rfl, ?_, ?_⟩
    · rcases hmem with hmem | rfl
      · exact Line.body_subset hl t hmem
      · exact hstop
    · obtain ⟨k, hk⟩ := List.getElem?_of_mem hstop
      have hlt := (List.getElem?_eq_some_iff.1 hk).1
      rw [tokenize_getElem? ht hk] at hi
      omega

private theorem Line.suits_of_instruct {l : Line} {m : Mnemonic} {mnemonic : Token} {i : Instruction} {next : Nat}
    (h : .instruct m mnemonic i next ∈ l.actions) : i.Suits m := by
  rcases hl : l.statement? with _ | st
  · rw [Line.actions, hl] at h
    cases h
  · rw [Line.actions_of_statement? hl] at h
    obtain ⟨-, -, -, us, rest, hr⟩ := Line.instruct_mem hl h
    exact Instruction.suits_of_read hr

/-- Assembling a source gives its code or refuses it with a diagnostic: about a constant that is configured twice,
about characters that are no lexeme, or about a token of the source, and then no token behind the end mark was
looked at.  No label, form or register is ever looked up in vain: every instruction that a line asks for has a form
of its mnemonic that suits the operand. -/
theorem only_refusals_escape (z : Session) (source : String) (base : Option Int) (file : String) :
    ((∃ code, (z.assemble source base file).2.2 = .ok code) ∨
      (∃ d, Session.seed z.defines = .error d ∧ (z.assemble source base file).2.2 = .error (.refused d)) ∨
      (∃ d, tokenize source file = .error d ∧ (z.assemble source base file).2.2 = .error (.refused d)) ∨
      ∃ symbols tokens p t i, Session.seed z.defines = .ok symbols ∧ tokenize source file = .ok tokens ∧
        (run { base := base.getD z.base, symbols } (Line.split tokens)).failure = some (.refused p t i) ∧
        (z.assemble source base file).2.2 = .error (.refused (p.at (quotedLines source) t)) ∧
        t ∈ tokens ∧ i < tokens.length) ∧
      ∀ (l : Line) (m : Mnemonic) (mnemonic : Token) (i : Instruction) (next : Nat),
        .instruct m mnemonic i next ∈ l.actions → i.Suits m := by
  refine ⟨?_, fun l m mnemonic i next h => Line.suits_of_instruct h⟩
  cases hseed : Session.seed z.defines with
  | error d => exact .inr (.inl ⟨d, rfl, by simp only [Session.assemble, hseed]⟩)
  | ok symbols =>
    cases ht : tokenize source file with
    | error d => exact .inr (.inr (.inl ⟨d, rfl, by simp only [Session.assemble, hseed, ht]⟩))
    | ok tokens =>
      rw [(Session.assemble_of_run hseed ht).2]
      cases hf : (run { base := base.getD z.base, symbols } (Line.split tokens)).failure with
      | none => exact .inl ⟨_, rfl⟩
      | some e =>
        obtain ⟨p, t, i, rfl, hmem, hi⟩ := mem_of_run_failure ht hf
        exact .inr (.inr (.inr ⟨symbols, tokens, p, t, i, rfl, rfl, hf, rfl, hmem, hi⟩))

/-- A source that defines a label twice. -/
private def twice : String :=
  "p: nop\np: nop\n"

theorem only_refusals_escape_twice :
    ∃ tokens p t i, tokenize twice "main.asm" = .ok tokens ∧
      (run { base := 0x4000 } (Line.split tokens)).failure = some (.refused p t i) ∧
      (({} : Session).assemble twice none "main.asm").2.2 = .error (.refused (p.at (quotedLines twice) t)) ∧
      t ∈ tokens ∧ i < tokens.length := by
  have hrun : (({} : Session).assemble twice none "main.asm").2.2.toOption = none ∧
      (tokenize twice "main.asm").toOption ≠ none := by decide +kernel
  obtain ⟨⟨code, hcode⟩ | ⟨d, hd, -⟩ | ⟨d, hd, -⟩ | ⟨symbols, tokens, p, t, i, hseed, ht, hf, hr, hmem, hi⟩, -⟩ :=
    only_refusals_escape {} twice none "main.asm"
  · rw [hcode] at hrun
    cases hrun.1
  · cases hd
  · rw [hd] at hrun
    exact absurd rfl hrun.2
  · cases hseed
    exact ⟨tokens, p, t, i, ht, hf, hr, hmem, hi⟩

end Mc6809
