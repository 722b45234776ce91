import Mc6809.Proofs.Lexing.Case
import Mc6809.Proofs.Lexing.Lexemes
import Mc6809.Proofs.Translation.Basic
import Mc6809.Session

/-!
# Letter case

Letters count without regard to case outside of literals.  A source in which the case of such letters is changed has
the same tokens at the same places, or is refused at the same place, so that it is assembled to the same code and the
same symbols (`case_does_not_matter`).
-/

namespace Mc6809

namespace Lexer

/-! ### The characters of literals -/

/-- For each character of a text, whether it belongs to a literal.  Nothing is said of what follows the end of the
program or a place that is no lexeme. -/
def literals (start : Bool) (cs : List Char) : List Bool :=
  match cs with
  | [] => []
  | c :: cs =>
    if isSkipped c then false :: literals start cs
    else if opensComment c then
      List.replicate ((cs.takeWhile (· ≠ '\n')).length + 1) false ++ literals start (cs.dropWhile (· ≠ '\n'))
    else
      match _h : scan c cs with
      | .error _ => []
      | .ok s =>
        List.replicate s.text.length s.lexeme.isLiteral ++
          if start && s.lexeme = .directive .stop then [] else literals (startsAfter start s.lexeme) s.rest
termination_by cs.length
decreasing_by
  · simp
  · have := (List.dropWhile_suffix (l := cs) (· ≠ '\n')).length_le
    simp only [List.length_cons]
    omega
  · have := scan_rest_length _h
    simp only [List.length_cons]
    omega

private theorem literals_of_scan {start : Bool} {c : Char} {cs : List Char} {s : Scanned} (h : scan c cs = .ok s) :
    literals start (c :: cs) = List.replicate s.text.length s.lexeme.isLiteral ++
      if start && s.lexeme = .directive .stop then [] else literals (startsAfter start s.lexeme) s.rest := by
  obtain ⟨hskip, hcomment⟩ := not_gap_of_scan h
  rw [literals, if_neg (by simp [hskip]), if_neg (by simp [hcomment])]
  split
  · next he =>
    rw [h] at he
    cases he
  · next s' hs' =>
    rw [h] at hs'
    cases hs'
    rfl

/-- Texts with the same characters where they are marked. -/
def AgreeOn (marks : List Bool) (cs cs' : List Char) : Prop :=
  ∀ i : Nat, marks[i]? = some true → cs'[i]? = cs[i]?

instance (marks : List Bool) (cs cs' : List Char) : Decidable (AgreeOn marks cs cs') :=
  decidable_of_iff (∀ i < marks.length, marks[i]? = some true → cs'[i]? = cs[i]?)
    ⟨fun h i hi => h i (List.getElem?_eq_some_iff.1 hi).1 hi, fun h i _ hi => h i hi⟩

/-- Agreement on a piece of a text and agreement behind it. -/
private theorem AgreeOn.cut {n : Nat} {b : Bool} {marks : List Bool} {cs cs' : List Char}
    (h : AgreeOn (List.replicate n b ++ marks) cs cs') :
    (b = true → cs'.take n = cs.take n) ∧ AgreeOn marks (cs.drop n) (cs'.drop n) := by
  constructor
  · rintro rfl
    refine List.ext_getElem? fun i => ?_
    rw [List.getElem?_take, List.getElem?_take]
    by_cases hi : i < n
    · rw [if_pos hi, if_pos hi]
      refine h i ?_
      rw [List.getElem?_append_left (by simpa using hi), List.getElem?_replicate, if_pos hi]
    · rw [if_neg hi, if_neg hi]
  · intro i hi
    rw [List.getElem?_drop, List.getElem?_drop]
    refine h (n + i) ?_
    rw [List.getElem?_append_right (by simp), List.length_replicate, Nat.add_sub_cancel_left]
    exact hi

/-! ### Tokens -/

private theorem Caseless.eq {α : Type} {f : Char → α} (hf : Caseless f) {c c' : Char} (h : c'.toLower = c.toLower) :
    f c' = f c := by
  rw [← hf c', h, hf c]

private theorem length_of_fold {cs cs' : List Char} (h : fold cs' = fold cs) : cs'.length = cs.length := by
  have := congrArg List.length h
  simpa [fold] using this

private theorem drop_length_takeWhile (p : Char → Bool) (cs : List Char) :
    cs.drop (cs.takeWhile p).length = cs.dropWhile p := by
  have hsplit := List.takeWhile_append_dropWhile (p := p) (l := cs)
  calc cs.drop (cs.takeWhile p).length
      = (cs.takeWhile p ++ cs.dropWhile p).drop (cs.takeWhile p).length := by rw [hsplit]
    _ = cs.dropWhile p := List.drop_left

private theorem advance_of_fold (p : Position) {cs cs' : List Char} (h : fold cs' = fold cs) :
    p.advance cs' = p.advance cs := by
  have hstep : ∀ (q : Position), Caseless q.step := by
    intro q c
    simp only [Position.step, toLower_eq_iff (by decide : isLetter '\n' = false)]
  have hfold : ∀ us, p.advance (fold us) = p.advance us := by
    intro us
    simp only [Position.advance, fold, List.foldl_map, hstep _ _]
  rw [← hfold cs', h, hfold]

/-- The tokens of a text, or the place where they come to an end. -/
def outcome : Except (Problem × Position) (List Token) → Except Position (List Token)
  | .ok tokens => .ok tokens
  | .error (_, p) => .error p

private theorem outcome_map {x x' : Except (Problem × Position) (List Token)} (t : Token) (h : outcome x' = outcome x) :
    outcome (x'.map (t :: ·)) = outcome (x.map (t :: ·)) := by
  rcases x with ⟨problem, p⟩ | tokens <;> rcases x' with ⟨problem', p'⟩ | tokens' <;> cases h <;> rfl

private theorem exists_cons_of_fold {c : Char} {cs cs' : List Char} (h : fold cs' = fold (c :: cs)) :
    ∃ c' us, cs' = c' :: us ∧ c'.toLower = c.toLower ∧ fold us = fold cs := by
  cases cs' with
  | nil => cases h
  | cons c' us => exact ⟨c', us, rfl, by simpa using h⟩

/-- Texts that differ in the case of letters outside of literals have the same lexeme in front. -/
private theorem exists_of_agreeOn {start : Bool} {c c' : Char} {cs us : List Char} {s : Scanned}
    (hs : scan c cs = .ok s)
    (hcase : fold (c' :: us) = fold (c :: cs)) (hagree : AgreeOn (literals start (c :: cs)) (c :: cs) (c' :: us)) :
    ∃ s', scan c' us = .ok s' ∧ s'.lexeme = s.lexeme ∧ fold s'.text = fold s.text ∧ fold s'.rest = fold s.rest ∧
      ((start && s.lexeme = .directive .stop) = false →
        AgreeOn (literals (startsAfter start s.lexeme) s.rest) s.rest s'.rest) := by
  obtain ⟨s', hs', houtline, htext, hrest⟩ := exists_of_scan_ok hcase hs
  have hsplit := (scan_text_append_rest hs).1
  have hsplit' := (scan_text_append_rest hs').1
  rw [literals_of_scan hs, ← hsplit, ← hsplit'] at hagree
  obtain ⟨hsame, hbehind⟩ := hagree.cut
  have hlength : s'.text.length = s.text.length := length_of_fold htext
  refine ⟨s', hs', ?_, htext, hrest, ?_⟩
  · cases hliteral : s.lexeme.isLiteral with
    | false => exact Lexeme.eq_of_outline houtline hliteral
    | true =>
      have htext' : s'.text = s.text := by
        have := hsame hliteral
        rwa [← hlength, List.take_left, hlength, List.take_left] at this
      have hc : c' = c := by
        obtain ⟨_, h, -⟩ := exists_text_of_scan hs
        obtain ⟨_, h', -⟩ := exists_text_of_scan hs'
        rw [htext', h] at h'
        exact (List.cons.inj h').1.symm
      exact lexeme_of_text hs (hc ▸ hs') htext'
  · intro hstop
    rw [if_neg (by simp [hstop]), List.drop_left, ← hlength, List.drop_left] at hbehind
    exact hbehind

private theorem outcome_tokensFrom {start : Bool} {cs cs' : List Char} (hcase : fold cs' = fold cs)
    (hagree : AgreeOn (literals start cs) cs cs') (file : String) (index : Nat) (p : Position) :
    outcome (tokensFrom file start index p cs') = outcome (tokensFrom file start index p cs) := by
  fun_induction tokensFrom file start index p cs generalizing cs' with
  | case1 start index p =>
    rw [fold_eq_nil.1 hcase, tokensFrom]
  | case2 start index p c cs hc ih =>
    obtain ⟨c', us, rfl, hlower, hus⟩ := exists_cons_of_fold hcase
    have hc' : isSkipped c' = true := (caseless_isSkipped.eq hlower).trans hc
    have hstep : p.advance [c'] = p.advance [c] := advance_of_fold p (by simp [hlower])
    rw [literals, if_pos hc] at hagree
    rw [tokensFrom, if_pos hc', show p.step c' = p.step c from hstep]
    exact ih hus (hagree.cut (n := 1) (b := false)).2
  | case3 start index p c cs hskip hc ih =>
    obtain ⟨c', us, rfl, hlower, hus⟩ := exists_cons_of_fold hcase
    have hskip' : ¬isSkipped c' = true := by rwa [caseless_isSkipped.eq hlower]
    have hc' : opensComment c' = true := (caseless_opensComment.eq hlower).trans hc
    have hfeed : Caseless (fun c => decide (c ≠ '\n')) := caseless_of_capitals (by decide)
    have htake : fold (us.takeWhile (· ≠ '\n')) = fold (cs.takeWhile (· ≠ '\n')) := by
      rw [← takeWhile_fold hfeed, hus, takeWhile_fold hfeed]
    have hdrop : fold (us.dropWhile (· ≠ '\n')) = fold (cs.dropWhile (· ≠ '\n')) := by
      rw [← dropWhile_fold hfeed, hus, dropWhile_fold hfeed]
    have hadvance : p.advance (c' :: us.takeWhile (· ≠ '\n')) = p.advance (c :: cs.takeWhile (· ≠ '\n')) :=
      advance_of_fold p (by simp only [fold_cons, hlower, htake])
    rw [literals, if_neg hskip, if_pos hc] at hagree
    have hagree' := hagree.cut.2
    rw [List.drop_succ_cons, List.drop_succ_cons, drop_length_takeWhile, ← length_of_fold htake,
      drop_length_takeWhile] at hagree'
    rw [tokensFrom, if_neg hskip', if_pos hc', hadvance]
    exact ih hdrop hagree'
  | case4 start index p c cs hskip hcomment r hr =>
    obtain ⟨c', us, rfl, hlower, hus⟩ := exists_cons_of_fold hcase
    obtain ⟨r', hr', htext⟩ := exists_of_scan_error hcase hr
    have hskip' : isSkipped c' = false := by simpa [caseless_isSkipped.eq hlower] using hskip
    have hcomment' : opensComment c' = false := by simpa [caseless_opensComment.eq hlower] using hcomment
    rw [tokensFrom_of_refusal hskip' hcomment' hr', outcome, outcome, advance_of_fold p htext]
  | case5 start index p c cs _ _ s hscan token q =>
    obtain ⟨c', us, rfl, hlower, hus⟩ := exists_cons_of_fold hcase
    obtain ⟨s', hs', hlexeme, htext, hrest, hbehind⟩ := exists_of_agreeOn hscan hcase hagree
    rename_i hstop
    rw [tokensFrom_of_scan hs', hlexeme, if_pos hstop, advance_of_fold p htext]
  | case6 start index p c cs _ _ s hscan token q hstop =>
    obtain ⟨c', us, rfl, hlower, hus⟩ := exists_cons_of_fold hcase
    obtain ⟨s', hs', hlexeme, htext, hrest, hbehind⟩ := exists_of_agreeOn hscan hcase hagree
    rename_i ih
    rw [tokensFrom_of_scan hs', hlexeme, if_neg hstop, advance_of_fold p htext]
    exact outcome_map token (ih hrest (hbehind (by simpa using hstop)))

/-! ### Refused characters -/

private theorem kind_of_scanDigits {radix : Radix} {mark cs : List Char} {r : Refusal}
    (h : scanDigits radix mark cs = .error r) : r.problem.diagnosis.kind = .malformed := by
  unfold scanDigits at h
  dsimp only at h
  split at h
  · cases h
    rfl
  · split at h
    · cases h
    · split at h <;> cases h
      rfl

private theorem kind_of_scanText {cs : List Char} {r : Refusal} (h : scanText cs = .error r) :
    r.problem.diagnosis.kind = .malformed := by
  fun_induction scanText cs generalizing r with
  | case2 => cases h
  | case6 => cases h
  | case8 => cases h
  | case7 e cs _ r' heq ih =>
    cases h
    exact ih (r := r') heq
  | case9 c cs _ _ _ _ r' heq ih =>
    cases h
    exact ih (r := r') heq
  | _ =>
    cases h
    rfl

private theorem kind_of_scan {c : Char} {cs : List Char} {r : Refusal} (h : scan c cs = .error r) :
    r.problem.diagnosis.kind = .malformed := by
  unfold scan at h
  split at h
  · cases h
  · split at h
    · unfold scanNumber at h
      split at h <;> exact kind_of_scanDigits h
    · split at h
      · exact kind_of_scanDigits h
      · exact kind_of_scanDigits h
      · split at h
        · cases h
        · next r' heq =>
          cases h
          exact kind_of_scanText (r := r') heq
      · unfold scanCharacter at h
        split at h <;> try split at h
        all_goals cases h
        all_goals rfl
      · cases h
      · cases h
      · split at h <;> cases h
        rfl

private theorem kind_of_tokensFrom {file : String} {start : Bool} {index : Nat} {p q : Position} {cs : List Char}
    {problem : Problem} (h : tokensFrom file start index p cs = .error (problem, q)) :
    problem.diagnosis.kind = .malformed := by
  fun_induction tokensFrom file start index p cs with
  | case1 => cases h
  | case2 start index p c cs _ ih => exact ih h
  | case3 start index p c cs _ _ ih => exact ih h
  | case4 start index p c cs _ _ r hr =>
    cases h
    exact kind_of_scan hr
  | case5 => cases h
  | case6 start index p c cs _ _ s hscan token q' hstop =>
    rename_i ih
    rcases hr : tokensFrom file (startsAfter start s.lexeme) (index + 1) q' s.rest with e | tokens
    · rw [hr] at h
      cases h
      exact ih hr
    · rw [hr] at h
      cases h

end Lexer

open Lexer

/-- Sources that differ in the case of letters outside of literals have the same tokens or are refused at the same
place. -/
private theorem tokenize_of_fold {source source' : String} (hcase : fold source'.toList = fold source.toList)
    (hliterals : AgreeOn (literals true source.toList) source.toList source'.toList) (file : String) :
    (∃ tokens, tokenize source file = .ok tokens ∧ tokenize source' file = .ok tokens) ∨
    ∃ d d' place, tokenize source file = .error d ∧ tokenize source' file = .error d' ∧
      d.diagnosis.kind = .malformed ∧ d'.diagnosis.kind = .malformed ∧
      d.location = some place ∧ d'.location = some place := by
  have houtcome := outcome_tokensFrom hcase hliterals file 0 .start
  unfold tokenize
  rcases h : tokensFrom file true 0 .start source.toList with ⟨problem, p⟩ | tokens <;>
    rcases h' : tokensFrom file true 0 .start source'.toList with ⟨problem', p'⟩ | tokens' <;>
    rw [h, h'] at houtcome <;> cases houtcome
  · exact .inr ⟨_, _, _, rfl, rfl, kind_of_tokensFrom h, kind_of_tokensFrom h', rfl, rfl⟩
  · exact .inl ⟨tokens, rfl, rfl⟩

/-- Besides its tokens a source matters only for the lines that complaints quote. -/
theorem Session.assemble_of_tokens {source source' file : String} {tokens : List Token}
    (h : tokenize source file = .ok tokens) (h' : tokenize source' file = .ok tokens) (z : Session)
    (base : Option Int) :
    (z.assemble source' base file).2.2.toOption = (z.assemble source base file).2.2.toOption ∧
      (z.assemble source' base file).1.labels = (z.assemble source base file).1.labels ∧
      (z.assemble source' base file).1.constants = (z.assemble source base file).1.constants := by
  simp only [Session.assemble, h, h']
  rcases Session.seed z.defines with d | symbols
  · exact ⟨rfl, rfl, rfl⟩
  · dsimp only
    rcases (run _ (Line.split tokens)).failure with _ | f
    · exact ⟨rfl, rfl, rfl⟩
    · exact ⟨rfl, rfl, rfl⟩

/-- A source that is refused before its first statement leaves a session as it was. -/
private theorem Session.assemble_of_refused {source file : String} {d : Diagnostic}
    (h : tokenize source file = .error d)
    (z : Session) (base : Option Int) : (z.assemble source base file).1 = z ∧
      (z.assemble source base file).2.2.toOption = none := by
  simp only [Session.assemble, h]
  rcases Session.seed z.defines with d' | symbols
  · exact ⟨rfl, rfl⟩
  · exact ⟨rfl, rfl⟩

/-- A source in which letters outside of literals change their case has the same tokens, or is refused at the same
place, and is assembled to the same code and the same symbols. -/
theorem case_does_not_matter {source source' : String}
    (hcase : source'.toList.map Char.toLower = source.toList.map Char.toLower)
    (hliterals : AgreeOn (literals true source.toList) source.toList source'.toList) (file : String) :
    (∀ tokens, tokenize source' file = .ok tokens ↔ tokenize source file = .ok tokens) ∧
    (∀ d, tokenize source file = .error d → ∃ d' place, tokenize source' file = .error d' ∧
      d.diagnosis.kind = .malformed ∧ d'.diagnosis.kind = .malformed ∧
      d.location = some place ∧ d'.location = some place) ∧
    ∀ (z : Session) (base : Option Int),
      (z.assemble source' base file).2.2.toOption = (z.assemble source base file).2.2.toOption ∧
      (z.assemble source' base file).1.labels = (z.assemble source base file).1.labels ∧
      (z.assemble source' base file).1.constants = (z.assemble source base file).1.constants := by
  rcases tokenize_of_fold hcase hliterals file with
    ⟨tokens, h, h'⟩ | ⟨d, d', place, h, h', hkind, hkind', hplace, hplace'⟩
  · refine ⟨fun ts => by rw [h, h'], ?_, Session.assemble_of_tokens h h'⟩
    intro d hd
    rw [h] at hd
    cases hd
  · refine ⟨?_, ?_, ?_⟩
    · intro tokens
      rw [h, h']
      constructor <;> rintro ⟨⟩
    · intro e he
      rw [h] at he
      cases he
      exact ⟨d', place, h', hkind, hkind', hplace, hplace'⟩
    · intro z base
      obtain ⟨hz, hcode⟩ := Session.assemble_of_refused h z base
      obtain ⟨hz', hcode'⟩ := Session.assemble_of_refused h' z base
      rw [hz, hz', hcode, hcode']
      exact ⟨rfl, rfl, rfl⟩

/-- A source with literals of both kinds. -/
private def spoken : String :=
  "Go: lda #'A\n FCB \"Ab\", 0xfF ; LOOP\n bra GO\nCount = %10\n end\n'"

/-- The same source in small letters apart from the literals. -/
private def whispered : String :=
  "go: lda #'A\n fcb \"Ab\", 0xff ; loop\n bra go\ncount = %10\n end\n'"

theorem case_does_not_matter_whispered :
    whispered.toList.map Char.toLower = spoken.toList.map Char.toLower ∧
    AgreeOn (literals true spoken.toList) spoken.toList whispered.toList ∧
    (∀ tokens, tokenize whispered "main.asm" = .ok tokens ↔ tokenize spoken "main.asm" = .ok tokens) ∧
    (Session.assemble {} whispered none "main.asm").2.2.toOption =
      some [0x86, 0x41, 0x41, 0x62, 0xFF, 0x20, 0xF9] := by
  have hcase : whispered.toList.map Char.toLower = spoken.toList.map Char.toLower := by decide +kernel
  have hliterals : AgreeOn (literals true spoken.toList) spoken.toList whispered.toList := by decide +kernel
  obtain ⟨htokens, -, hcode⟩ := case_does_not_matter hcase hliterals "main.asm"
  refine ⟨hcase, hliterals, htokens, (hcode {} none).1.trans ?_⟩
  decide +kernel

end Mc6809
