import Mc6809.Proofs.LetterCase
import Mc6809.Proofs.Lexing.Moved

/-!
# Text behind the end of a program

An `end` that starts a statement, after any labels, ends the program.  What follows the word does not matter, provided
that it neither makes the word longer nor makes it a label: the tokens are the same (`tokensFrom_of_ending`), and so
is everything that the source is assembled to.
-/

namespace Mc6809

open Lexer

/-! ### Places in a text -/

namespace Position

private theorem advance_le (p : Position) (cs : List Char) :
    p.line < (p.advance cs).line ∨ p.line = (p.advance cs).line ∧ p.column ≤ (p.advance cs).column := by
  induction cs generalizing p with
  | nil => exact .inr ⟨rfl, Nat.le_refl _⟩
  | cons c cs ih =>
    show p.line < ((p.step c).advance cs).line ∨
      p.line = ((p.step c).advance cs).line ∧ p.column ≤ ((p.step c).advance cs).column
    have hrest := ih (p.step c)
    generalize (p.step c).advance cs = q at hrest ⊢
    unfold step at hrest
    split at hrest <;> dsimp only at hrest <;> omega

theorem advance_cons_ne (p : Position) (c : Char) (cs : List Char) : p.advance (c :: cs) ≠ p := by
  intro h
  have hrest := advance_le (p.step c) cs
  rw [show (p.step c).advance cs = p from h] at hrest
  unfold step at hrest
  split at hrest <;> dsimp only at hrest <;> omega

/-- A position tells how far into a text it is. -/
private theorem eq_of_advance_eq {p : Position} {front front' back back' : List Char}
    (h : front ++ back = front' ++ back')
    (hp : p.advance front = p.advance front') : front = front' := by
  induction front generalizing p front' with
  | nil =>
    cases front' with
    | nil => rfl
    | cons c cs => exact absurd hp.symm (advance_cons_ne p c cs)
  | cons c cs ih =>
    cases front' with
    | nil => exact absurd hp (advance_cons_ne p c cs)
    | cons c' cs' =>
      rw [List.cons_append, List.cons_append, List.cons.injEq] at h
      obtain ⟨rfl, h⟩ := h
      rw [ih h hp]

end Position

/-! ### Starts of statements -/

/-- Whether a statement starts behind some tokens. -/
def startsBehind (start : Bool) (ts : List Token) : Bool :=
  ts.foldl (fun start t => startsAfter start t.lexeme) start

private theorem startsBehind_append (start : Bool) (ts us : List Token) :
    startsBehind start (ts ++ us) = startsBehind (startsBehind start ts) us :=
  List.foldl_append

private theorem startsBehind_labels {ts : List Token} (h : ∀ t ∈ ts, t.kind = .label) :
    startsBehind true ts = true := by
  induction ts with
  | nil => rfl
  | cons t ts ih =>
    have hlabel : startsAfter true t.lexeme = true := by
      have ht := h t (List.mem_cons_self ..)
      unfold Token.kind Lexeme.kind at ht
      split at ht
      · next hl => rw [hl, startsAfter]
      all_goals cases ht
    rw [startsBehind, List.foldl_cons, hlabel]
    exact ih fun u hu => h u (List.mem_cons_of_mem _ hu)

namespace Line

/-- A statement starts at the first token of a line. -/
private theorem startsBehind_of_splitFrom {body ts : List Token} {l : Line} (h : l ∈ splitFrom body ts) :
    ∃ us vs, body ++ ts = us ++ (l.body ++ vs) ∧ startsBehind true us = true := by
  fun_induction splitFrom body ts with
  | case1 => cases h
  | case2 body t ts ht ih =>
    rcases List.mem_cons.1 h with rfl | h
    · exact ⟨[], t :: ts, rfl, rfl⟩
    · obtain ⟨us, vs, hts, hus⟩ := ih h
      rw [List.nil_append] at hts
      refine ⟨body ++ t :: us, vs, by rw [hts, List.append_assoc, List.cons_append], ?_⟩
      rw [startsBehind_append, startsBehind, List.foldl_cons, ht]
      exact hus
  | case3 => cases h
  | case4 body t ts =>
    cases List.mem_singleton.1 h
    exact ⟨[], t :: ts, rfl, rfl⟩
  | case5 body t ts _ _ ih =>
    obtain ⟨us, vs, hts, hus⟩ := ih h
    rw [List.append_assoc, List.singleton_append] at hts
    exact ⟨us, vs, hts, hus⟩

/-- A statement starts at the first token of a line that is no label, too. -/
private theorem startsBehind_of_split {tokens : List Token} {l : Line} {t : Token} (hl : l ∈ split tokens)
    (ht : l.body.find? (fun t => t.kind ≠ .label) = some t) :
    ∃ us vs, tokens = us ++ t :: vs ∧ startsBehind true us = true := by
  obtain ⟨us, vs, htokens, hus⟩ := startsBehind_of_splitFrom hl
  obtain ⟨-, labels, rest, hbody, hlabels⟩ := List.find?_eq_some_iff_append.1 ht
  refine ⟨us ++ labels, rest ++ vs, by simpa [hbody] using htokens, ?_⟩
  rw [startsBehind_append, hus]
  exact startsBehind_labels fun u hu => by simpa using hlabels u hu

end Line

/-! ### The word that ends a program -/

namespace Lexer

/-- A text that cannot make a word in front of it longer or a label. -/
abbrev LeavesWord (tail : List Char) : Prop :=
  Avoids (fun c => isWordChar c || c = ':') tail

private theorem scanWord_of_leavesWord {word tail : List Char} (hword : ∀ c ∈ word, isWordChar c = true)
    (htail : LeavesWord tail) :
    scanWord (word ++ tail) = ⟨classify (String.ofList (word.map Char.toLower)), word, tail⟩ := by
  have hend : Avoids isWordChar tail := fun c hc => (Bool.or_eq_false_iff.1 (htail c hc)).1
  have hnot : Avoids (· = ':') tail := fun c hc => (Bool.or_eq_false_iff.1 (htail c hc)).2
  obtain ⟨htake, hdrop⟩ := takeWhile_append_of_avoids hword hend
  rw [← hdrop] at hnot
  rw [scanWord_of_avoids hnot, htake, hdrop]

private theorem name_of_classify {word : String} (h : classify word = .directive .stop) : word = "end" := by
  unfold classify at h
  split at h
  · cases h
  · cases h
  · next d _ _ hd =>
    cases h
    have hname := List.find?_some hd
    exact (of_decide_eq_true hname).symm
  · cases h

/-- Only the word `end` ends a program, and it does so whatever follows it and leaves it a word. -/
private theorem stop_of_scan {c : Char} {cs : List Char} {s : Scanned} (h : scan c cs = .ok s)
    (hs : s.lexeme = .directive .stop) :
    s.text.map Char.toLower = ['e', 'n', 'd'] ∧
      ∃ text, s.text = c :: text ∧ ∀ tail, LeavesWord tail →
        scan c (text ++ tail) = .ok ⟨.directive .stop, s.text, tail⟩ := by
  have hdigits : ∀ {radix : Radix} {mark cs : List Char}, scanDigits radix mark cs = .ok s → False := by
    intro radix mark cs h
    obtain ⟨n, hn⟩ := integer_of_scanDigits h
    cases hn.symm.trans hs
  obtain ⟨text, htext, -⟩ := exists_text_of_scan h
  cases Scans.of_scan h with
  | word hc =>
    by_cases hcolon : ∃ rest, (c :: cs).dropWhile isWordChar = ':' :: rest
    · obtain ⟨rest, hd⟩ := hcolon
      rw [scanWord_of_colon hd] at hs
      cases hs
    · have hnot := avoids_eq fun rest hd => hcolon ⟨rest, hd⟩
      rw [scanWord_of_avoids hnot] at hs htext ⊢
      dsimp only at hs htext ⊢
      have hname := congrArg String.toList (name_of_classify hs)
      rw [String.toList_ofList] at hname
      refine ⟨hname, text, htext, fun tail htail => ?_⟩
      have hchars : ∀ d ∈ (c :: cs).takeWhile isWordChar, isWordChar d = true := fun _ => List.mem_takeWhile_imp
      have hword := scanWord_of_leavesWord hchars htail
      rw [hs, congrArg (· ++ tail) htext, List.cons_append] at hword
      exact (Scans.scan_eq (.word hc _)).trans (congrArg _ hword)
  | number _ _ h =>
    unfold scanNumber at h
    split at h <;> exact (hdigits h).elim
  | marked _ h => exact (hdigits h).elim
  | text => cases hs
  | character h =>
    obtain ⟨d, hd⟩ := char_of_scanCharacter h
    cases hd.symm.trans hs
  | double hd =>
    cases hs
    unfold double? at hd
    split at hd <;> cases hd
  | sign hsign =>
    cases hs
    unfold sign? at hsign
    split at hsign <;> cases hsign

/-- A text goes on in the same way in front of a word, whatever follows the word. -/
private theorem head?_behind_word {word : List Char} (hword : word.map Char.toLower = ['e', 'n', 'd'])
    (front back tail : List Char) : (front ++ (word ++ tail)).head? = (front ++ (word ++ back)).head? := by
  cases front with
  | cons => rfl
  | nil =>
    cases word with
    | cons => rfl
    | nil => cases hword

/-- The tokens of a text with an `end` that starts a statement stay the same, whatever follows that word. -/
theorem tokensFrom_of_ending {file : String} {start : Bool} {index : Nat} {p : Position} {cs : List Char}
    {tokens us vs : List Token} {t : Token} (h : tokensFrom file start index p cs = .ok tokens)
    (htokens : tokens = us ++ t :: vs) (hus : startsBehind start us = true) (ht : t.lexeme = .directive .stop) :
    ∃ front word back, cs = front ++ (word ++ back) ∧ p.advance front = ⟨t.line, t.column⟩ ∧
      word.map Char.toLower = ['e', 'n', 'd'] ∧
      ∀ tail, LeavesWord tail → tokensFrom file start index p (front ++ (word ++ tail)) = .ok tokens := by
  fun_induction tokensFrom file start index p cs generalizing us tokens with
  | case1 =>
    cases h
    cases us with
    | nil =>
      cases htokens
      cases ht
    | cons u us => simp at htokens
  | case2 start index p c cs hc ih =>
    obtain ⟨front, word, back, rfl, hp, hword, htail⟩ := ih h htokens hus
    refine ⟨c :: front, word, back, rfl, hp, hword, fun tail hr => ?_⟩
    rw [List.cons_append, tokensFrom, if_pos hc]
    exact htail tail hr
  | case3 start index p c cs hskip hc ih =>
    obtain ⟨front, word, back, hcs, hp, hword, htail⟩ := ih h htokens hus
    refine ⟨c :: cs.takeWhile (· ≠ '\n') ++ front, word, back, ?_, ?_, hword, fun tail hr => ?_⟩
    · rw [List.cons_append, List.cons_append, List.append_assoc, ← hcs, List.takeWhile_append_dropWhile]
    · rw [Position.advance_append, hp]
    -- The comment ends where it did, since the text behind it starts in the same way.
    · have hend : AtLineEnd (front ++ (word ++ tail)) := by
        rw [AtLineEnd, Avoids, head?_behind_word hword front back tail, ← hcs]
        exact avoids_dropWhile _ cs
      have hfeed : '\n' ∉ cs.takeWhile (· ≠ '\n') := fun hmem => by simpa using List.mem_takeWhile_imp hmem
      rw [List.append_assoc, List.cons_append, tokensFrom_of_comment hc hfeed hend]
      exact htail tail hr
  | case4 => cases h
  | case5 start index p c cs _ _ s hscan token =>
    rename_i hstop
    cases h
    cases us with
    | nil =>
      obtain ⟨rfl, -⟩ := List.cons.inj htokens
      obtain ⟨hword, text, htext, htail⟩ := stop_of_scan hscan ht
      refine ⟨[], s.text, s.rest, (scan_text_append_rest hscan).1.symm, rfl, hword, fun tail hr => ?_⟩
      have hscan' := htail tail hr
      rw [← ht] at hscan'
      rw [List.nil_append, htext, List.cons_append, tokensFrom_of_scan hscan', if_pos hstop]
    -- Only the end mark follows, and that is no directive.
    | cons u us =>
      obtain ⟨-, hrest⟩ := List.cons.inj htokens
      cases us with
      | nil =>
        cases hrest
        cases ht
      | cons u us => simp at hrest
  | case6 start index p c cs _ _ s hscan token q =>
    rename_i hstop ih
    rcases hr : tokensFrom file (startsAfter start s.lexeme) (index + 1) q s.rest with e | rest
    · rw [hr] at h
      cases h
    · rw [hr] at h
      cases h
      cases us with
      | nil =>
        obtain ⟨rfl, -⟩ := List.cons.inj htokens
        exact absurd (by simpa [startsBehind] using ⟨hus, ht⟩) hstop
      | cons u us =>
        obtain ⟨rfl, hrest⟩ := List.cons.inj htokens
        obtain ⟨front, word, back, hcs, hp, hword, htail⟩ := ih hr hrest hus
        obtain ⟨text, htext, rfl⟩ := exists_text_of_scan hscan
        refine ⟨s.text ++ front, word, back, ?_, ?_, hword, fun tail hleaves => ?_⟩
        · rw [hcs, htext, List.append_assoc, List.cons_append]
        · rw [Position.advance_append, hp]
        · obtain ⟨text', htext', hscan'⟩ := scan_append hscan (.inl (hcs ▸ head?_behind_word hword front back tail))
          rw [List.append_assoc, htext', List.cons_append, tokensFrom_of_scan hscan', if_neg hstop]
          exact congrArg (Except.map (token :: ·)) (htail tail hleaves)

end Lexer

/-! ### Sources with an end -/

/-- A trouble without the source line that it quotes. -/
def Trouble.unquoted : Trouble → Trouble
  | refused d => refused { d with sourceLine := none }
  | e => e

/-- Sources with the same tokens are refused for the same reason at the same place, if they are. -/
private theorem Session.outcome_of_tokens {source source' file : String} {tokens : List Token}
    (h : tokenize source file = .ok tokens) (h' : tokenize source' file = .ok tokens) (z : Session)
    (base : Option Int) :
    (z.assemble source' base file).2.2.mapError Trouble.unquoted =
      (z.assemble source base file).2.2.mapError Trouble.unquoted := by
  simp only [Session.assemble, h, h']
  rcases Session.seed z.defines with d | symbols
  · rfl
  · dsimp only
    rcases (run _ (Line.split tokens)).failure with _ | f
    · rfl
    · cases f <;> rfl

/-- An `end` that is the first token of a line, labels apart, ends the program: the text up to that word and any other
text behind it, provided that it neither makes the word longer nor makes it a label, have the same tokens as the
source, and are assembled to the same code and symbols or refused for the same reason at the same place. -/
theorem text_behind_end_is_inert {source file : String} {tokens : List Token} {l : Line} {t : Token}
    (h : tokenize source file = .ok tokens) (hl : l ∈ Line.split tokens)
    (ht : l.body.find? (fun t => t.kind ≠ .label) = some t) (hstop : t.lexeme = .directive .stop) :
    ∃ front word back, source.toList = front ++ (word ++ back) ∧
      Position.start.advance front = ⟨t.line, t.column⟩ ∧
      (∀ front' back', source.toList = front' ++ back' → Position.start.advance front' = ⟨t.line, t.column⟩ →
        front' = front) ∧
      word.map Char.toLower = ['e', 'n', 'd'] ∧
      ∀ tail, LeavesWord tail →
        tokenize (String.ofList (front ++ (word ++ tail))) file = .ok tokens ∧
        ∀ (z : Session) (base : Option Int),
          (z.assemble (String.ofList (front ++ (word ++ tail))) base file).2.2.mapError Trouble.unquoted =
            (z.assemble source base file).2.2.mapError Trouble.unquoted ∧
          (z.assemble (String.ofList (front ++ (word ++ tail))) base file).1.labels =
            (z.assemble source base file).1.labels ∧
          (z.assemble (String.ofList (front ++ (word ++ tail))) base file).1.constants =
            (z.assemble source base file).1.constants := by
  obtain ⟨us, vs, htokens, hus⟩ := Line.startsBehind_of_split hl ht
  obtain ⟨front, word, back, hsource, hp, hword, htail⟩ :=
    tokensFrom_of_ending (tokensFrom_of_tokenize h) htokens hus hstop
  refine ⟨front, word, back, hsource, hp, ?_, hword, fun tail hleaves => ?_⟩
  · intro front' back' hsource' hp'
    exact Position.eq_of_advance_eq (hsource'.symm.trans hsource) (hp'.trans hp.symm)
  · have h' : tokenize (String.ofList (front ++ (word ++ tail))) file = .ok tokens := by
      rw [tokenize, String.toList_ofList, htail tail hleaves]
    refine ⟨h', fun z base => ?_⟩
    obtain ⟨-, hlabels, hconstants⟩ := Session.assemble_of_tokens h h' z base
    exact ⟨Session.outcome_of_tokens h h' z base, hlabels, hconstants⟩

/-- A source that ends behind a label with the same name. -/
private def ended : String :=
  "lda #1 ; end\nend: EnD\nq"

/-- The same source with a literal behind its end that is not closed. -/
private def endedByLiteral : String :=
  "lda #1 ; end\nend: EnD\x22"

theorem text_behind_end_is_inert_open_literal :
    ∃ tokens l t, tokenize ended "main.asm" = .ok tokens ∧ l ∈ Line.split tokens ∧
      l.body.find? (fun t => t.kind ≠ .label) = some t ∧ t.lexeme = .directive .stop ∧
      tokenize endedByLiteral "main.asm" = .ok tokens ∧
      (Session.assemble {} endedByLiteral none "main.asm").2.2.mapError Trouble.unquoted =
        (Session.assemble {} ended none "main.asm").2.2.mapError Trouble.unquoted ∧
      (Session.assemble {} endedByLiteral none "main.asm").1.labels = [("end", 0x4002)] := by
  let label : Token := ⟨.label "end", 4, "main.asm", 2, 1⟩
  let t : Token := ⟨.directive .stop, 5, "main.asm", 2, 6⟩
  let l : Line := ⟨[label, t], ⟨.eof, 6, "main.asm", 2, 9⟩⟩
  have hrun : (tokenize ended "main.asm").toOption.map (fun ts => (Line.split ts)[1]?) = some (some l) ∧
      (Session.assemble {} ended none "main.asm").1.labels = [("end", 0x4002)] := by decide +kernel
  obtain ⟨hline, hlabels⟩ := hrun
  obtain ⟨tokens, htokens, hsecond⟩ := Option.map_eq_some_iff.1 hline
  have hmem := List.mem_of_getElem? hsecond
  obtain ⟨front, word, back, hsource, -, hunique, hword, hinert⟩ :=
    text_behind_end_is_inert (t := t) (tokenize_eq_ok htokens) hmem (by decide) rfl
  have hfront := hunique "lda #1 ; end\nend: ".toList "EnD\nq".toList (by decide) (by decide)
  subst hfront
  have hbehind : word ++ back = "EnD\nq".toList := List.append_cancel_left (hsource.symm.trans (by decide))
  have hlength : word.length = 3 := by simpa using congrArg List.length hword
  have hspelled : word = ['E', 'n', 'D'] := by
    have htake := congrArg (List.take 3) hbehind
    rw [List.take_left' hlength] at htake
    exact htake.trans (by decide)
  subst hspelled
  obtain ⟨htokens', hassemble⟩ := hinert ['\x22'] (avoids_cons.2 (by decide))
  obtain ⟨houtcome, hlabels', -⟩ := hassemble {} none
  exact ⟨tokens, l, t, tokenize_eq_ok htokens, hmem, by decide, rfl, htokens', houtcome, hlabels'.trans hlabels⟩

end Mc6809
