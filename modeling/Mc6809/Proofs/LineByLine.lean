import Mc6809.Assembly.Part
import Mc6809.Proofs.Widths

/-!
# One line for each statement

Whatever symbols are worth, a statement that succeeds takes one line: what follows its label is read up to the end
of the line (`Line.run_part`).  So the places where statements end are those where lines end.  The second pass
finds what the first one left for it: each label that it comes to is bound, each width that it looks up is recorded
(`Walked.prepared`), and no width changes any more, even if the pass fails (`Walked.widths_of_turn`).
-/

namespace Mc6809

open Assemble

/-! ### Parts -/

namespace Line

/-- A line without its label. -/
def unlabelled (l : Line) : Line :=
  ⟨l.operation, l.stop⟩

/-- The kind of part that a line has after its label. -/
def part (l : Line) : Part :=
  match l.operation with
  | [] => .instruction
  | t :: _ =>
    match t.lexeme with
    | .directive _ => .directive
    | .identifier _ => .named
    | _ => .instruction

variable {l : Line} {st : Statement} {t u : State}

private theorem run_script {script : Script} {stop : Token} (he : script.ending = .ok [])
    (hd : Action.DoAll t script.actions u) : script.run stop t = .ok stop.index u := by
  rw [Script.run, bind_eq_ok]
  refine ⟨(), u, Action.forM_run_eq_ok.2 hd, ?_⟩
  rw [he]
  rfl

/-- A statement without a fault is the part after its label, which ends where the line does. -/
theorem run_part (hl : l.statement? = some st) (hf : st.fault = none) (hc : t.pass = .second → st.constants = false)
    (hd : Action.DoAll t st.actions u) : l.part.run l.unlabelled t = .ok l.stop.index u := by
  have hending := ending_of_statement? hl hf
  obtain ⟨hconst, hactions, -⟩ := read_of_statement? hl
  rw [hactions] at hd
  rw [hconst] at hc
  rw [Part.run, get_bind]
  rcases ho : l.operation with _ | ⟨first, rest⟩
  · rw [ho] at hd
    cases hd
    simp only [part, unlabelled, ho, Part.read?]
    rfl
  · rw [ho] at hd hending hc
    unfold Statement.readBody at hd hending hc
    cases hlex : first.lexeme with
    | directive d =>
      simp only [hlex] at hd hending hc
      have hskip : ¬(d.definesConstants && t.pass = .second) = true := by
        intro h
        simp only [Bool.and_eq_true, decide_eq_true_eq] at h
        rw [hc h.2] at h
        exact absurd h.1 Bool.false_ne_true
      simp only [part, unlabelled, ho, hlex, Part.read?, if_neg hskip]
      exact run_script hending hd
    | opcode m =>
      simp only [hlex] at hd hending
      simp only [part, unlabelled, ho, hlex, Part.read?]
      exact run_script hending hd
    | identifier name =>
      simp only [hlex] at hd hending
      simp only [part, unlabelled, ho, hlex, Part.read?]
      exact run_script hending hd
    | _ =>
      simp only [hlex] at hending
      cases hending

/-- From one state to another a line is taken to its end: its label is bound or found, and the part behind the
label ends where the line does.  The second pass records a row, and passes over definitions of constants. -/
def Taken (l : Line) (st : Statement) (s s' : State) : Prop :=
  (s.pass = .second ∧ st.constants = true) ∨
    ∃ t u, s.Labels st.label t ∧ l.part.run l.unlabelled t = .ok l.stop.index u ∧
      s' = if s.pass = .second then s.record st.first.line u else u

private theorem taken_of_does {s s' : State} (hl : l.statement? = some st) (h : st.Does s s') : l.Taken st s s' := by
  cases h with
  | first hp hlabel hd hf =>
    refine .inr ⟨_, _, hlabel, run_part hl hf ?_ hd, by simp [hp]⟩
    intro hp'
    rw [hlabel.same.1, hp] at hp'
    cases hp'
  | second hp hc hlabel hd hf => exact .inr ⟨_, _, hlabel, run_part hl hf (fun _ => hc) hd, by simp [hp]⟩
  | skipped hp hc => exact .inl ⟨hp, hc⟩

end Line

/-! ### What the second pass finds -/

section Widths

variable {l : Line} {st : Statement} {s₁ s₂ t₁ t₂ : State} {m : Mnemonic} {mnemonic : Token} {i : Instruction}
  {next : Nat}

/-- The first pass records a width for each operand that can be stored in several ones. -/
private theorem Statement.Does.recorded (h : st.Does s₁ t₁) (hp : s₁.pass = .first) (hl : l.statement? = some st)
    (hi : .instruct m mnemonic i next ∈ st.actions) {e : Expr} (hs : i.sized? = some e) :
    ∃ w, t₁.widths.lookup (mnemonic.index : Int) = some w := by
  obtain ⟨u, hlabel, hd, -⟩ := h.of_first hp
  rw [(Line.instruct_mem hl hi).2.1] at hd
  obtain ⟨own, ho⟩ := Instruction.ownWidth?_of_some hs m u
  cases hd.singleton with
  | instruct hencodes => exact ⟨own, hencodes.lookup_own (hlabel.same.1.trans hp) ho⟩

/-- Even a line that fails in the second pass records no width. -/
private theorem Statement.Breaks.widths_again {e : Failure} (h₂ : st.Breaks s₂ e t₂) (h₁ : st.Does s₁ t₁)
    (hl : l.statement? = some st) (hp₁ : s₁.pass = .first) (hp₂ : s₂.pass = .second)
    (hw : t₁.WidthsFrom s₂ l.body) : t₂.widths = s₂.widths := by
  cases h₂ with
  | label => rfl
  | fault _ _ hf =>
    obtain ⟨-, -, -, hnone⟩ := h₁.of_first hp₁
    rw [hnone] at hf
    cases hf
  | action hlabel ha hd hr hc =>
    cases hlabel.eq_of_second hp₂
    have hleaves := (Action.run_eq_error hr).2
    rcases (Line.group_of_statement? hl).instruct_cases with hnone | ⟨m, mnemonic, i, next, hone⟩
    · rw [ha] at hnone
      have hfront := hd.widths_of_isInstruct fun b hb => hnone b (List.mem_append_left _ hb)
      have hthis := hnone _ (List.mem_append_right _ (List.mem_cons_self ..))
      cases hleaves with
      | same => exact hfront
      | opcode => cases hthis
      | chosen => cases hthis
    -- An instruction stands alone, so nothing has happened before it.
    · have hmem : .instruct m mnemonic i next ∈ st.actions := by simp [hone]
      rw [ha] at hone
      obtain ⟨rfl, hsingle⟩ := List.append_eq_singleton_iff.1 hone |>.resolve_right (by simp)
      cases hsingle
      cases hd
      cases hleaves with
      | same => rfl
      | opcode => rfl
      | chosen ho =>
        rcases hs : i.sized? with _ | x
        · rw [Instruction.ownWidth?_of_none hs] at ho
          cases ho
        · obtain ⟨w, hfound⟩ := h₁.recorded hp₁ hl hmem hs
          have hkept := hw mnemonic (Line.instruct_mem hl hmem).2.2.1
          exact State.widthsWith_of_recorded hp₂ (hkept.trans hfound)

end Widths

/-- A line of the second pass that finds what the first one, which ended in the state `t`, left for it: its label
is bound, and a width is recorded for its operand if that can be stored in several ones. -/
structure Attempt.Prepared (t : State) (a : Attempt) : Prop where
  label : ∀ first rest name, a.line.body = first :: rest → first.lexeme = .label name →
    ∃ address, a.state.symbols.labels.value? name = some address
  width : ∀ m mnemonic i next e, .instruct m mnemonic i next ∈ a.line.actions → i.sized? = some e →
    ∃ w, a.state.widths.lookup (mnemonic.index : Int) = some w
  widths : a.state.widths = t.widths

namespace Walked

variable {s t : State} {ls : List Line} {vs : List Visit}

/-- The second pass is prepared for every line that it starts on. -/
theorem prepared (h : Walked s ls vs t) (hp : s.pass = .first) (he : s.ended = false)
    (hapart : ls.Pairwise Line.Before) : ∀ a ∈ attempts t.turn ls, a.Prepared t := by
  intro a ha
  obtain ⟨k, hk⟩ := List.getElem?_of_mem ha
  obtain ⟨v₁, -, hl, hset, hR⟩ := h.retraces_attempts hp he hapart hk
  refine ⟨?_, ?_, hR.widths⟩
  · intro first rest name hbody hname
    have hst : v₁.line.statement? = some (Statement.read v₁.line.stop first rest) := by
      rw [← hl, Line.statement?, hbody]
    have hlabel : (Statement.read v₁.line.stop first rest).label = some (name, first) := by
      simp [Statement.read, hname]
    have hbound := (Line.does_of_run hst hset.run).label_of_first hset.pass hlabel
    refine ⟨v₁.before.pc, ?_⟩
    rw [hR.symbols]
    exact hset.labels name _ hbound
  · intro m mnemonic i next e hi hs
    rw [hl] at hi
    rcases hst : v₁.line.statement? with _ | st
    · rw [Line.actions, hst] at hi
      cases hi
    · rw [Line.actions_of_statement? hst] at hi
      obtain ⟨w, hw⟩ := (Line.does_of_run hst hset.run).recorded hset.pass hst hi hs
      refine ⟨w, ?_⟩
      rw [hR.widths, hset.widths mnemonic (Line.instruct_mem hst hi).2.2.1, hw]

/-- The second pass leaves the widths as they are, whether or not it fails. -/
theorem widths_of_turn (h : Walked s ls vs t) (hp : s.pass = .first) (he : s.ended = false)
    (hapart : ls.Pairwise Line.Before) : (walk t.turn ls).1.widths = t.widths := by
  rcases hw : walk t.turn ls with ⟨u, _ | e⟩
  · exact (h.keeps hp he hapart (walk_eq_none_iff.1 hw)).2
  · obtain ⟨a, ha, hr⟩ := attempt_of_failure hw
    obtain ⟨k, hk⟩ := List.getElem?_of_mem ha
    obtain ⟨v₁, -, hl, hset, hR⟩ := h.retraces_attempts hp he hapart hk
    rw [hl] at hr
    rcases hst : v₁.line.statement? with _ | st
    · rw [Line.run, hst] at hr
      cases hr
    · rw [Line.run, hst] at hr
      have hfrom : v₁.after.WidthsFrom a.state v₁.line.body := fun m hm => hR.widths ▸ hset.widths m hm
      exact ((Statement.breaks_of_run hr).widths_again (Line.does_of_run hst hset.run) hst hset.pass hR.pass
        hfrom).trans hR.widths

end Walked

/-- Whatever its symbols are worth, a source is carried out line by line, in either pass: after the `k`-th
statement the next token is the one behind the `k`-th line break, or the end mark if there are fewer, so each
statement goes on by at least one token, and each was read from its label up to the end of its line.  Once the first
pass has come to its end, the second one finds the labels and the widths that it looks up and changes no width. -/
theorem each_statement_takes_one_line {source file : String} {tokens : List Token}
    (ht : tokenize source file = .ok tokens) :
    (∀ (s : State) (k : Nat) (p : Step), (steps s (Line.split tokens))[k]? = some p →
        p.index = lineEnd tokens k ∧ lineStart tokens k < p.index) ∧
      (∀ (s : State), ∀ v ∈ visits s (Line.split tokens), ∀ st, v.line.statement? = some st →
        v.line.Taken st v.before v.after) ∧
      ∀ (base : Int) (symbols : Symbols) (t : State),
        walk (State.start .first { base, symbols }) (Line.split tokens) = (t, none) →
          (∀ a ∈ attempts t.turn (Line.split tokens), a.Prepared t) ∧
            (walk t.turn (Line.split tokens)).1.widths = t.widths := by
  have hapart := Line.split_apart (tokenize_index ht)
  refine ⟨?_, ?_, ?_⟩
  · intro s k p hp
    rw [steps_eq_map_visits, List.getElem?_map, Option.map_eq_some_iff] at hp
    obtain ⟨v, hv, rfl⟩ := hp
    exact Line.next_of_split ht (line_of_visits hv)
  · intro s v hv st hst
    exact Line.taken_of_does hst (Line.does_of_run hst (run_of_mem_visits hv).2)
  · intro base symbols t hw
    have hwalked := walk_eq_none_iff.1 hw
    exact ⟨hwalked.prepared rfl rfl hapart, hwalked.widths_of_turn rfl rfl hapart⟩

/-- A source with an empty line, a constant, operands of two widths and a last line without a line break. -/
private def fiveLines : String :=
  "n = 2\np: lda q\n\n ldb n,x\nq: bra p"

theorem each_statement_takes_one_line_five_lines :
    ∃ tokens t, tokenize fiveLines "main.asm" = .ok tokens ∧ lineBreaks tokens = [3, 7, 8, 13] ∧
      walk (State.start .first { base := 0x10 }) (Line.split tokens) = (t, none) ∧
      (steps t.turn (Line.split tokens)).map Step.index = [4, 8, 9, 14, 17] ∧
      (∀ (k : Nat) (p : Step), (steps t.turn (Line.split tokens))[k]? = some p →
        p.index = lineEnd tokens k ∧ lineStart tokens k < p.index) ∧
      (∀ v ∈ visits t.turn (Line.split tokens), ∀ st, v.line.statement? = some st →
        v.line.Taken st v.before v.after) ∧
      (attempts t.turn (Line.split tokens)).length = 5 ∧
      (∀ a ∈ attempts t.turn (Line.split tokens), a.Prepared t) ∧
      t.widths = [(5, 2), (9, 0)] ∧ (walk t.turn (Line.split tokens)).1.widths = t.widths := by
  let tokens := (tokenize fiveLines "main.asm").toOption.getD []
  let first := walk (State.start .first { base := 0x10 }) (Line.split tokens)
  have ht : tokenize fiveLines "main.asm" = .ok tokens := tokenize_eq_ok (by decide +kernel)
  have hrun : first.2 = none ∧ lineBreaks tokens = [3, 7, 8, 13] ∧
      (steps first.1.turn (Line.split tokens)).map Step.index = [4, 8, 9, 14, 17] ∧
      (attempts first.1.turn (Line.split tokens)).length = 5 ∧ first.1.widths = [(5, 2), (9, 0)] := by
    decide +kernel
  obtain ⟨hnone, hbreaks, hindex, hlength, hwidths⟩ := hrun
  have hw : first = (first.1, none) := Prod.ext rfl hnone
  obtain ⟨hplaces, htaken, hsecond⟩ := each_statement_takes_one_line ht
  obtain ⟨hprepared, hkept⟩ := hsecond 0x10 {} first.1 hw
  exact ⟨tokens, first.1, ht, hbreaks, hw, hindex, hplaces _, htaken _, hlength, hprepared, hwidths, hkept⟩

end Mc6809
