import Mc6809.Proofs.Lexing.Moved
import Mc6809.Proofs.Refusal

/-!
# The line that a run fails on

A walk that fails gets over the lines in front of the one that it fails on (`stopsOn_of_walk`).  The lines of a source
are consecutive stretches of its tokens (`Line.tokens_of_split`), and all tokens of a line have the number of the line
(`Line.line_of_split`), since the lines are counted by the line breaks among the tokens.  So a failure is reported at a
token of the statement that the run stopped on, with the line of that statement.
-/

namespace Mc6809

/-! ### Walks that fail -/

/-- A walk that gets over the lines `done` and fails on the line `l` behind them, from the state `u` to `t`. -/
structure StopsOn (s : State) (ls done : List Line) (l : Line) (u : State) (e : Failure) (t : State) : Prop where
  lines : ∃ rest, ls = done ++ l :: rest
  walked : walk s done = (u, none)
  going : u.ended = false
  fails : l.run u = .error e t

private theorem StopsOn.cons {s s' u t : State} {ls done : List Line} {l l' : Line} {e : Failure}
    (h : StopsOn s' ls done l u e t) (he : s.ended = false) (hr : l'.run s = .ok () s') :
    StopsOn s (l' :: ls) (l' :: done) l u e t where
  lines := by
    obtain ⟨rest, hlines⟩ := h.lines
    exact ⟨rest, congrArg (l' :: ·) hlines⟩
  walked := by
    rw [walk_cons_of_ok he hr]
    exact h.walked
  going := h.going
  fails := h.fails

theorem stopsOn_of_walk {s t : State} {ls : List Line} {e : Failure} (h : walk s ls = (t, some e)) :
    ∃ done l u, StopsOn s ls done l u e t := by
  induction ls generalizing s with
  | nil => cases h
  | cons l ls ih =>
    by_cases he : s.ended = true
    · rw [walk_of_ended he] at h
      cases h
    · have hgoing : s.ended = false := by simpa using he
      cases hr : l.run s with
      | error e' t' =>
        rw [walk, if_neg he, hr] at h
        cases h
        exact ⟨[], l, s, ⟨ls, rfl⟩, rfl, hgoing, hr⟩
      | ok _ s' =>
        rw [walk_cons_of_ok hgoing hr] at h
        obtain ⟨done, l', u, hstops⟩ := ih h
        exact ⟨l :: done, l', u, hstops.cons hgoing hr⟩

private theorem StopsOn.mem_attempts {s u t : State} {ls done : List Line} {l : Line} {e : Failure}
    (h : StopsOn s ls done l u e t) : ⟨l, u⟩ ∈ attempts s ls := by
  obtain ⟨⟨rest, rfl⟩, hwalked, hgoing, hfails⟩ := h
  induction done generalizing s with
  | nil =>
    cases hwalked
    rw [List.nil_append, attempts_cons_of_error hgoing hfails]
    exact List.mem_singleton_self _
  | cons l' done ih =>
    by_cases he : s.ended = true
    · rw [walk_of_ended he] at hwalked
      cases hwalked
      rw [hgoing] at he
      cases he
    · have he' : s.ended = false := by simpa using he
      cases hr : l'.run s with
      | error e' t' =>
        rw [walk, if_neg he, hr] at hwalked
        cases hwalked
      | ok _ s' =>
        rw [walk_cons_of_ok he' hr] at hwalked
        rw [List.cons_append, attempts_cons_of_ok he' hr]
        exact List.mem_cons_of_mem _ (ih hwalked)

/-- A line that fails has a statement. -/
private theorem Line.body_of_run_error {l : Line} {s t : State} {e : Failure} (h : l.run s = .error e t) :
    l.body ≠ [] := by
  intro hnil
  rw [Line.run, Line.statement?, hnil] at h
  cases h

/-! ### Lines and tokens -/

/-- The number of line breaks among tokens. -/
def breaks (ts : List Token) : Nat :=
  ts.countP (·.lexeme = .newline)

namespace Line

/-- The tokens of a line, its end included. -/
def tokens (l : Line) : List Token :=
  l.body ++ [l.stop]

/-- A line is a stretch of tokens up to the first line break or end mark. -/
structure Closed (l : Line) : Prop where
  body : ∀ t ∈ l.body, t.lexeme ≠ .newline ∧ t.lexeme ≠ .eof
  stop : l.stop.lexeme = .newline ∨ l.stop.lexeme = .eof

private theorem Closed.breaks_body {l : Line} (h : l.Closed) : breaks l.body = 0 := by
  refine List.countP_eq_zero.2 fun t ht => ?_
  simpa using (h.body t ht).1

private theorem tokens_of_splitFrom {body ts : List Token} (hbody : ∀ t ∈ body, t.lexeme ≠ .newline ∧ t.lexeme ≠ .eof)
    {done rest : List Line} {l : Line} (h : splitFrom body ts = done ++ l :: rest) :
    (∃ after, body ++ ts = done.flatMap tokens ++ (l.tokens ++ after)) ∧ l.Closed ∧
      breaks (done.flatMap tokens) = done.length := by
  fun_induction splitFrom body ts generalizing done with
  | case1 =>
    cases done <;> cases h
  | case2 body t ts ht ih =>
    have hclosed : Closed ⟨body, t⟩ := ⟨hbody, .inl ht⟩
    cases done with
    | nil =>
      cases h
      exact ⟨⟨ts, by simp [tokens]⟩, hclosed, rfl⟩
    | cons l' done =>
      obtain ⟨rfl, hlines⟩ := List.cons.inj h
      obtain ⟨⟨after, hts⟩, hl, hbreaks⟩ := ih (by simp) hlines
      rw [List.nil_append] at hts
      refine ⟨⟨after, by simp [hts, tokens]⟩, hl, ?_⟩
      have hline : breaks (tokens ⟨body, t⟩) = 1 := by
        rw [breaks, tokens, List.countP_append, ← breaks, hclosed.breaks_body]
        simp [ht]
      rw [List.flatMap_cons, breaks, List.countP_append, ← breaks, ← breaks, hline, hbreaks, List.length_cons]
      omega
  | case3 =>
    cases done <;> cases h
  | case4 body t ts _ ht _ =>
    cases done with
    | nil =>
      cases h
      exact ⟨⟨ts, by simp [tokens]⟩, ⟨hbody, .inr ht⟩, rfl⟩
    | cons l' done =>
      obtain ⟨-, hlines⟩ := List.cons.inj h
      cases done <;> cases hlines
  | case5 body t ts ht he ih =>
    have hbody' : ∀ u ∈ body ++ [t], u.lexeme ≠ .newline ∧ u.lexeme ≠ .eof := by
      intro u hu
      rcases List.mem_append.1 hu with hu | hu
      · exact hbody u hu
      · rcases List.mem_singleton.1 hu
        exact ⟨ht, he⟩
    obtain ⟨⟨after, hts⟩, hl, hbreaks⟩ := ih hbody' h
    rw [List.append_assoc] at hts
    exact ⟨⟨after, hts⟩, hl, hbreaks⟩

/-- The lines of a source are consecutive stretches of its tokens, with a line break at the end of each but the
last. -/
theorem tokens_of_split {ts : List Token} {done rest : List Line} {l : Line} (h : split ts = done ++ l :: rest) :
    (∃ after, ts = done.flatMap tokens ++ (l.tokens ++ after)) ∧ l.Closed ∧
      breaks (done.flatMap tokens) = done.length :=
  tokens_of_splitFrom (by simp) h

end Line

/-! ### Line numbers -/

private theorem Position.line_advance (p : Position) (cs : List Char) :
    (p.advance cs).line = p.line + cs.count '\n' := by
  induction cs generalizing p with
  | nil => rfl
  | cons c cs ih =>
    show ((p.step c).advance cs).line = _
    rw [ih, List.count_cons]
    unfold step
    by_cases hc : c = '\n'
    · simp [hc]
      omega
    · simp [hc]

namespace Lexer

variable {file : String} {start : Bool} {index : Nat} {p : Position} {c : Char} {cs : List Char} {s : Scanned}
  {tokens : List Token}

/-- Only a line feed is read as a line break. -/
private theorem text_of_newline (h : scan c cs = .ok s) (hs : s.lexeme = .newline) : s.text = ['\n'] := by
  have hdigits : ∀ {radix : Radix} {mark cs : List Char}, scanDigits radix mark cs ≠ .ok s := by
    intro radix mark cs h
    obtain ⟨n, hn⟩ := integer_of_scanDigits h
    cases hn.symm.trans hs
  cases Scans.of_scan h with
  | word hc =>
    revert hs
    unfold scanWord
    dsimp only
    split
    · simp
    · unfold classify
      split <;> simp
  | number _ _ h =>
    unfold scanNumber at h
    split at h <;> exact absurd h hdigits
  | marked _ h => exact absurd h hdigits
  | text => cases hs
  | character h =>
    obtain ⟨d, hd⟩ := char_of_scanCharacter h
    cases hd.symm.trans hs
  | double hd =>
    cases hs
    unfold double? at hd
    split at hd <;> cases hd
  | sign hsign =>
    cases hs
    unfold sign? at hsign
    split at hsign <;> cases hsign
    rfl

/-- A line break leads to the next line, and all other lexemes stay on theirs. -/
private theorem line_behind (h : scan c cs = .ok s) (p : Position) {t : Token} (ht : t.lexeme = s.lexeme)
    (us : List Token) :
    (p.advance s.text).line + breaks us = p.line + breaks (t :: us) := by
  rw [Position.line_advance, breaks, breaks, List.countP_cons, ht]
  by_cases hs : s.lexeme = .newline
  · rw [text_of_newline h hs]
    simp [hs]
    omega
  · rw [List.count_eq_zero.2 fun hfeed => hs (congrArg Scanned.lexeme (newline_of_scan h hfeed).1)]
    simp [hs]

/-- A token is on the line that the line breaks in front of it lead to. -/
private theorem line_of_tokensFrom (h : tokensFrom file start index p cs = .ok tokens) {us vs : List Token} {t : Token}
    (ht : tokens = us ++ t :: vs) : t.file = file ∧ t.line = p.line + breaks us := by
  fun_induction tokensFrom file start index p cs generalizing tokens us with
  | case1 start index p =>
    cases h
    cases us with
    | nil =>
      cases ht
      exact ⟨rfl, rfl⟩
    | cons u us => simp at ht
  | case2 start index p c cs hc ih =>
    obtain ⟨hfile, hline⟩ := ih h ht
    have hstep := Position.line_advance p [c]
    rw [List.count_eq_zero.2 (by rintro hfeed; rcases List.mem_singleton.1 hfeed; cases hc)] at hstep
    refine ⟨hfile, ?_⟩
    rw [hline]
    exact congrArg (· + breaks us) hstep
  | case3 start index p c cs hskip hc ih =>
    obtain ⟨hfile, hline⟩ := ih h ht
    have hfeed : '\n' ∉ c :: cs.takeWhile (· ≠ '\n') := by
      rw [List.mem_cons, not_or]
      refine ⟨?_, fun hmem => by simpa using List.mem_takeWhile_imp hmem⟩
      rintro rfl
      cases hc
    rw [hline, Position.line_advance, List.count_eq_zero.2 hfeed]
    exact ⟨hfile, rfl⟩
  | case4 => cases h
  | case5 start index p c cs _ _ s hscan token q =>
    cases h
    cases us with
    | nil =>
      obtain ⟨rfl, -⟩ := List.cons.inj ht
      exact ⟨rfl, rfl⟩
    | cons u us =>
      obtain ⟨rfl, hrest⟩ := List.cons.inj ht
      have hline := line_behind hscan p (t := token) rfl us
      cases us with
      | nil =>
        cases hrest
        exact ⟨rfl, hline⟩
      | cons u us => simp at hrest
  | case6 start index p c cs _ _ s hscan token q hstop =>
    rename_i ih
    rcases hr : tokensFrom file (startsAfter start s.lexeme) (index + 1) q s.rest with e | rest
    · rw [hr] at h
      cases h
    · rw [hr] at h
      cases h
      cases us with
      | nil =>
        obtain ⟨rfl, -⟩ := List.cons.inj ht
        exact ⟨rfl, rfl⟩
      | cons u us =>
        obtain ⟨rfl, hrest⟩ := List.cons.inj ht
        obtain ⟨hfile, hline⟩ := ih hr hrest
        exact ⟨hfile, hline.trans (line_behind hscan p rfl us)⟩

end Lexer

/-- All tokens of a line have the number of the line. -/
theorem Line.line_of_split {source file : String} {tokens : List Token} (ht : tokenize source file = .ok tokens)
    {done rest : List Line} {l : Line} (h : split tokens = done ++ l :: rest) :
    ∀ t ∈ l.tokens, t.file = file ∧ t.line = done.length + 1 := by
  obtain ⟨⟨after, htokens⟩, hl, hbreaks⟩ := tokens_of_split h
  -- in front of a token of the line there are the lines before it and tokens that are no line breaks
  have hline : ∀ us t vs, l.tokens = us ++ t :: vs → breaks us = 0 →
      t.file = file ∧ t.line = done.length + 1 := by
    intro us t vs hus hzero
    have hsplit : tokens = (done.flatMap Line.tokens ++ us) ++ t :: (vs ++ after) := by
      rw [htokens, hus]
      simp
    obtain ⟨hfile, hnumber⟩ := Lexer.line_of_tokensFrom (tokensFrom_of_tokenize ht) hsplit
    rw [breaks, List.countP_append, ← breaks, ← breaks, hbreaks, hzero] at hnumber
    exact ⟨hfile, hnumber.trans (Nat.add_comm 1 _)⟩
  intro t hmem
  rcases List.mem_append.1 hmem with hmem | hmem
  · obtain ⟨us, vs, hbody⟩ := List.append_of_mem hmem
    have hzero := hl.breaks_body
    rw [hbody, breaks, List.countP_append] at hzero
    refine hline us t (vs ++ [l.stop]) (by simp [Line.tokens, hbody]) ?_
    rw [breaks]
    omega
  · rcases List.mem_singleton.1 hmem
    exact hline l.body l.stop [] rfl hl.breaks_body

/-! ### Runs that fail -/

/-- A run that stops on a line of the first pass, or on one of the second pass after all of the first one. -/
inductive RunStopsOn (s : State) (ls done : List Line) (l : Line) (u : State) (e : Failure) (t : State) : Prop
  | first (h : StopsOn (s.start .first) ls done l u e t)
  | second {v : State} (hw : walk (s.start .first) ls = (v, none)) (h : StopsOn v.turn ls done l u e t)

private theorem RunStopsOn.stopsOn {s u t : State} {ls done : List Line} {l : Line} {e : Failure}
    (h : RunStopsOn s ls done l u e t) : ∃ r, StopsOn r ls done l u e t := by
  cases h with
  | first h => exact ⟨_, h⟩
  | second _ h => exact ⟨_, h⟩

private theorem runStopsOn_of_run {s : State} {ls : List Line} {e : Failure} (h : (run s ls).failure = some e) :
    ∃ done l u, RunStopsOn s ls done l u e (run s ls).state := by
  unfold run at h ⊢
  rcases hw : walk (s.start .first) ls with ⟨v, _ | e₁⟩
  · rw [hw] at h
    rcases hw₂ : walk v.turn ls with ⟨t, _ | e₂⟩
    · simp only [hw₂] at h
      cases h
    · simp only [hw₂] at h
      cases h
      obtain ⟨done, l, u, hstops⟩ := stopsOn_of_walk hw₂
      exact ⟨done, l, u, .second hw (by simpa only [hw₂] using hstops)⟩
  · rw [hw] at h
    cases h
    obtain ⟨done, l, u, hstops⟩ := stopsOn_of_walk hw
    exact ⟨done, l, u, .first hstops⟩

/-- The line that a run stops on is refused at one of its tokens or at its end. -/
private theorem RunStopsOn.on {source file : String} {tokens : List Token} {s u t : State} {done : List Line} {l : Line}
    {e : Failure} (h : RunStopsOn s (Line.split tokens) done l u e t) (ht : tokenize source file = .ok tokens) :
    e.On l.stop l.body := by
  have hnumbered := tokenize_index ht
  obtain ⟨r, hstops⟩ := h.stopsOn
  have hbefore := Line.index_lt_stop hnumbered (line_mem_of_attempts hstops.mem_attempts)
  refine Line.on_of_run hbefore (fun hp => ?_) hstops.fails
  cases h with
  | first h =>
    rw [pass_of_attempts h.mem_attempts] at hp
    cases hp
  | second hw h =>
    -- the first pass has bound the label by now
    exact ((walk_eq_none_iff.1 hw).prepared rfl rfl (Line.split_apart hnumbered) _ h.mem_attempts).label

/-- A run that fails stops on a statement, which is the next one behind the lines of that pass that were carried out;
if it is the second pass, all of the first one was.  The failure is a refusal at one of the tokens of the statement, the
end of its line included, and the diagnostic has the line of the statement. -/
theorem failures_lie_on_their_statement {source file : String} {tokens : List Token}
    (ht : tokenize source file = .ok tokens) {s : State} {e : Failure}
    (h : (run s (Line.split tokens)).failure = some e) :
    ∃ (p : Problem) (t : Token) (i : Nat) (done rest : List Line) (l : Line) (u : State),
      e = .refused p t i ∧
      Session.trouble (quotedLines source) e = .refused
        ⟨p.diagnosis, some ⟨file, done.length + 1, t.column⟩, lineText? (quotedLines source) (done.length + 1)⟩ ∧
      t ∈ l.tokens ∧ (∀ t' ∈ l.tokens, t'.line = done.length + 1) ∧
      Line.split tokens = done ++ l :: rest ∧ l.body ≠ [] ∧ l.Closed ∧
      (∃ after, tokens = done.flatMap Line.tokens ++ (l.tokens ++ after)) ∧
      u.ended = false ∧ l.run u = .error e (run s (Line.split tokens)).state ∧
      (walk (s.start .first) done = (u, none) ∨
        ∃ v, walk (s.start .first) (Line.split tokens) = (v, none) ∧ walk v.turn done = (u, none)) := by
  obtain ⟨done, l, u, hrun⟩ := runStopsOn_of_run h
  obtain ⟨r, ⟨rest, hlines⟩, -, hgoing, hfails⟩ := hrun.stopsOn
  obtain ⟨hafter, hclosed, -⟩ := Line.tokens_of_split hlines
  have hnumbers := Line.line_of_split ht hlines
  have hpasses : walk (s.start .first) done = (u, none) ∨
      ∃ v, walk (s.start .first) (Line.split tokens) = (v, none) ∧ walk v.turn done = (u, none) := by
    cases hrun with
    | first h => exact .inl h.walked
    | second hw h => exact .inr ⟨_, hw, h.walked⟩
  cases hrun.on ht with
  | @refused p t i hmem hi =>
    have htoken : t ∈ l.tokens := by simpa [Line.tokens] using hmem
    obtain ⟨hfile, hline⟩ := hnumbers t htoken
    refine ⟨p, t, i, done, rest, l, u, rfl, ?_, htoken, fun t' ht' => (hnumbers t' ht').2, hlines,
      Line.body_of_run_error hfails, hclosed, hafter, hgoing, hfails, hpasses⟩
    simp only [Session.trouble, Problem.at, Token.location, hfile, hline]
    rfl

/-- A source whose last line fails in the second pass. -/
private def lateFailure : String :=
  "p: lda r\n\nr: ldb p+q ; t"

theorem failures_lie_on_their_statement_late :
    ∃ (tokens : List Token) (e : Failure) (done rest : List Line) (l : Line) (u : State),
      tokenize lateFailure "main.asm" = .ok tokens ∧
      (run { base := 0 } (Line.split tokens)).failure = some e ∧
      e = .refused (.undefinedSymbol "q" []) ⟨.identifier "q", 9, "main.asm", 3, 10⟩ 10 ∧
      Line.split tokens = done ++ l :: rest ∧ done.length = 2 ∧
      ⟨.identifier "q", 9, "main.asm", 3, 10⟩ ∈ l.tokens ∧
      l.run u = .error e (run { base := 0 } (Line.split tokens)).state := by
  let tokens := (tokenize lateFailure "main.asm").toOption.getD []
  have ht : tokenize lateFailure "main.asm" = .ok tokens := tokenize_eq_ok (by decide +kernel)
  have hf : (run { base := 0 } (Line.split tokens)).failure =
      some (.refused (.undefinedSymbol "q" []) ⟨.identifier "q", 9, "main.asm", 3, 10⟩ 10) := by decide +kernel
  obtain ⟨p, t, i, done, rest, l, u, he, -, hmem, hline, hlines, -, -, -, -, hfails, -⟩ :=
    failures_lie_on_their_statement ht hf
  cases he
  have hnumber := hline _ hmem
  exact ⟨tokens, _, done, rest, l, u, ht, hf, rfl, hlines, by simpa using hnumber.symm, hmem, hfails⟩

end Mc6809
