import Mc6809.Proofs.Lexing.Scan

/-!
# Letter case in lexemes

The classes of characters are the same for a letter and its capital (`Caseless`).  So a text in small letters is cut
into lexemes at the same places, and only the contents of literals tell the two apart (`outline_scan`).
-/

namespace Mc6809

/-- A lexeme without the contents of a literal. -/
def Lexeme.outline : Lexeme → Lexeme
  | .text _ => .text ""
  | .char _ => .char ' '
  | l => l

/-- Whether a lexeme stands for characters. -/
def Lexeme.isLiteral : Lexeme → Bool
  | .text _ | .char _ => true
  | _ => false

/-- Apart from literals a lexeme is its outline. -/
theorem Lexeme.eq_of_outline {l l' : Lexeme} (h : l'.outline = l.outline) (hl : l.isLiteral = false) : l' = l := by
  have hkeep : ∀ {m : Lexeme}, m.isLiteral = false → m.outline = m := by
    intro m hm
    cases m <;> first | rfl | cases hm
  have hliteral : ∀ m : Lexeme, m.outline.isLiteral = m.isLiteral := by
    intro m
    cases m <;> rfl
  have hl' : l'.isLiteral = false := by rw [← hliteral, h, hliteral, hl]
  rw [← hkeep hl', h, hkeep hl]

namespace Lexer

/-! ### Characters -/

/-- A text in small letters. -/
def fold (cs : List Char) : List Char :=
  cs.map Char.toLower

/-- What is the same for a letter and its capital. -/
def Caseless {α : Type} (f : Char → α) : Prop :=
  ∀ c : Char, f c.toLower = f c

def capitalLetters : List Char :=
  ['A', 'B', 'C', 'D', 'E', 'F', 'G', 'H', 'I', 'J', 'K', 'L', 'M', 'N', 'O', 'P', 'Q', 'R', 'S', 'T', 'U', 'V', 'W',
    'X', 'Y', 'Z']

theorem toLower_of_notMem {c : Char} (h : c ∉ capitalLetters) : c.toLower = c := by
  have hmem : ∀ n, n < 91 → 65 ≤ n → Char.ofNat n ∈ capitalLetters := by decide
  unfold Char.toLower
  split
  · next hc =>
    have hlow : 65 ≤ c.toNat := UInt32.le_iff_toNat_le.1 hc.1
    have hhigh : c.toNat ≤ 90 := UInt32.le_iff_toNat_le.1 hc.2
    have := hmem c.toNat (by omega) hlow
    rw [Char.ofNat_toNat] at this
    exact absurd this h
  · rfl

theorem caseless_of_capitals {α : Type} {f : Char → α}
    (h : capitalLetters.map (fun c => f c.toLower) = capitalLetters.map f) : Caseless f := by
  intro c
  by_cases hc : c ∈ capitalLetters
  · exact List.map_inj_left.1 h c hc
  · rw [toLower_of_notMem hc]

theorem caseless_toLower : Caseless Char.toLower :=
  caseless_of_capitals (by decide)

private theorem caseless_isWordStart : Caseless isWordStart :=
  caseless_of_capitals (by decide)

theorem caseless_isWordChar : Caseless isWordChar :=
  caseless_of_capitals (by decide)

theorem caseless_isSkipped : Caseless isSkipped :=
  caseless_of_capitals (by decide)

theorem caseless_opensComment : Caseless opensComment :=
  caseless_of_capitals (by decide)

private theorem caseless_isMark : Caseless isMark :=
  caseless_of_capitals (by decide)

private theorem caseless_digit? (base : Nat) : Caseless (Numeral.digit? base) := by
  have hvalue : Caseless Numeral.charValue? := caseless_of_capitals (by decide)
  intro c
  rw [Numeral.digit?, Numeral.digit?, hvalue]

theorem caseless_isDigitOf (radix : Radix) : Caseless (isDigitOf radix) := by
  intro c
  rw [isDigitOf, isDigitOf, caseless_digit?]

/-- No letter is folded to a character that is not a letter. -/
theorem toLower_eq_iff {c d : Char} (hd : isLetter d = false) : c.toLower = d ↔ c = d := by
  by_cases hc : c ∈ capitalLetters
  · have hletters : (capitalLetters.all fun c => isLetter c && isLetter c.toLower) = true := by decide
    obtain ⟨h, h'⟩ := Bool.and_eq_true_iff.1 (List.all_eq_true.1 hletters c hc)
    constructor
    · rintro rfl
      rw [hd] at h'
      cases h'
    · rintro rfl
      rw [hd] at h
      cases h
  · rw [toLower_of_notMem hc]

section Fold

variable {cs : List Char}

@[simp]
private theorem fold_nil : fold [] = [] :=
  rfl

@[simp]
theorem fold_cons (c : Char) (cs : List Char) : fold (c :: cs) = c.toLower :: fold cs :=
  rfl

@[simp]
theorem fold_append (cs ds : List Char) : fold (cs ++ ds) = fold cs ++ fold ds :=
  List.map_append

@[simp]
theorem fold_fold (cs : List Char) : fold (fold cs) = fold cs := by
  simp [fold, Function.comp_def, caseless_toLower _]

theorem fold_eq_nil : fold cs = [] ↔ cs = [] :=
  List.map_eq_nil_iff

theorem takeWhile_fold {p : Char → Bool} (hp : Caseless p) (cs : List Char) :
    (fold cs).takeWhile p = fold (cs.takeWhile p) := by
  rw [fold, List.takeWhile_map, show p ∘ Char.toLower = p from funext hp, fold]

theorem dropWhile_fold {p : Char → Bool} (hp : Caseless p) (cs : List Char) :
    (fold cs).dropWhile p = fold (cs.dropWhile p) := by
  rw [fold, List.dropWhile_map, show p ∘ Char.toLower = p from funext hp, fold]

private theorem avoids_fold {p : Char → Bool} (hp : Caseless p) : Avoids p (fold cs) ↔ Avoids p cs := by
  cases cs with
  | nil => simp
  | cons c cs => rw [fold_cons, avoids_cons, avoids_cons, hp]

end Fold

private theorem numberOf_fold (radix : Radix) (ds : List Char) : numberOf radix (fold ds) = numberOf radix ds := by
  simp only [numberOf, fold, List.foldl_map, caseless_digit? _ _]

/-! ### One lexeme -/

/-- How a lexeme was read, in small letters and without the contents of a literal. -/
def outline : Scan → Except (List Char) Scanned
  | .ok s => .ok ⟨s.lexeme.outline, fold s.text, fold s.rest⟩
  | .error r => .error (fold r.text)

private theorem outline_scanWord (cs : List Char) :
    outline (.ok (scanWord (fold cs))) = outline (.ok (scanWord cs)) := by
  have hname : (fold cs).takeWhile isWordChar = fold (cs.takeWhile isWordChar) :=
    takeWhile_fold caseless_isWordChar cs
  have hrest : (fold cs).dropWhile isWordChar = fold (cs.dropWhile isWordChar) :=
    dropWhile_fold caseless_isWordChar cs
  have hfold : ∀ w : List Char, (fold w).map Char.toLower = w.map Char.toLower := fold_fold
  by_cases hcolon : ∃ rest, cs.dropWhile isWordChar = ':' :: rest
  · obtain ⟨rest, hd⟩ := hcolon
    have hd' : (fold cs).dropWhile isWordChar = ':' :: fold rest := by
      rw [hrest, hd]
      rfl
    simp only [scanWord_of_colon hd, scanWord_of_colon hd', hname, hfold, outline, fold_append, fold_fold]
  · have hd : Avoids (· = ':') (cs.dropWhile isWordChar) := avoids_eq fun rest h => hcolon ⟨rest, h⟩
    have hd' : Avoids (· = ':') ((fold cs).dropWhile isWordChar) := by
      rw [hrest]
      exact (avoids_fold (caseless_of_capitals (by decide))).2 hd
    simp only [scanWord_of_avoids hd, scanWord_of_avoids hd', hname, hrest, hfold, outline, fold_fold]

private theorem outline_scanDigits (radix : Radix) (mark cs : List Char) :
    outline (scanDigits radix (fold mark) (fold cs)) = outline (scanDigits radix mark cs) := by
  unfold scanDigits
  dsimp only
  rw [takeWhile_fold (caseless_isDigitOf radix), dropWhile_fold (caseless_isDigitOf radix), numberOf_fold]
  by_cases hds : cs.takeWhile (isDigitOf radix) = []
  · simp [hds, outline]
  · rw [if_neg hds, if_neg (mt fold_eq_nil.1 hds)]
    rcases cs.dropWhile (isDigitOf radix) with _ | ⟨c, rest⟩
    · simp [outline]
    · by_cases hc : isWordChar c = true
      · simp [outline, caseless_isWordChar c, hc]
      · simp [outline, caseless_isWordChar c, hc, caseless_toLower c]

private theorem Unmarked.fold {c : Char} {cs : List Char} (h : Unmarked c cs) : Unmarked c.toLower (Lexer.fold cs) := by
  rintro hc m us hcs hm
  cases cs with
  | nil => cases hcs
  | cons n cs =>
    cases hcs
    rw [caseless_isMark] at hm
    obtain ⟨hn, hdigit⟩ := h ((toLower_eq_iff (by decide)).1 hc) n cs rfl hm
    refine ⟨.inl ?_, (avoids_fold (caseless_of_capitals (by decide))).2 hdigit⟩
    rcases hn with rfl | rfl <;> decide

private theorem outline_scanNumber (cs : List Char) : outline (scanNumber (fold cs)) = outline (scanNumber cs) := by
  fun_cases scanNumber cs with
  | case1 cs => exact outline_scanDigits .hexadecimal ['0', 'x'] cs
  | case2 cs => exact outline_scanDigits .hexadecimal ['0', 'X'] cs
  | case3 cs => exact outline_scanDigits .binary ['0', 'b'] ('0' :: cs)
  | case4 cs => exact outline_scanDigits .binary ['0', 'b'] ('1' :: cs)
  | case5 cs => exact outline_scanDigits .binary ['0', 'B'] ('0' :: cs)
  | case6 cs => exact outline_scanDigits .binary ['0', 'B'] ('1' :: cs)
  | case7 cs hx hX hb0 hb1 hB0 hB1 =>
    cases cs with
    | nil => rfl
    | cons c cs =>
      -- None of the marks is in front, so that none is in front of the folded text either.
      have hdecimal : Unmarked c cs := by
        rintro rfl m us rfl hm
        rcases isMark_iff.1 hm with rfl | rfl | rfl | rfl
        · exact (hx us rfl).elim
        · exact (hX us rfl).elim
        · refine ⟨.inl rfl, fun d hd => ?_⟩
          obtain ⟨vs, rfl⟩ := List.head?_eq_some_iff.1 hd
          have h0 : d ≠ '0' := by rintro rfl; exact hb0 vs rfl
          have h1 : d ≠ '1' := by rintro rfl; exact hb1 vs rfl
          simp [h0, h1]
        · refine ⟨.inr rfl, fun d hd => ?_⟩
          obtain ⟨vs, rfl⟩ := List.head?_eq_some_iff.1 hd
          have h0 : d ≠ '0' := by rintro rfl; exact hB0 vs rfl
          have h1 : d ≠ '1' := by rintro rfl; exact hB1 vs rfl
          simp [h0, h1]
      rw [fold_cons, scanNumber_of_unmarked hdecimal.fold]
      exact outline_scanDigits .decimal [] (c :: cs)

/-- What was taken of a text literal and what was left, in small letters. -/
def outlineText : Except Refusal (List Char × List Char × List Char) → Except (List Char) (List Char × List Char)
  | .ok (_, taken, rest) => .ok (fold taken, fold rest)
  | .error r => .error (fold r.text)

private theorem outlineText_grow {meant meant' : Char} {written written' : List Char}
    {r r' : Except Refusal (List Char × List Char × List Char)} (hw : fold written' = fold written)
    (hr : outlineText r' = outlineText r) :
    outlineText (grow meant' written' r') = outlineText (grow meant written r) := by
  rcases r with e | ⟨ms, taken, rest⟩ <;> rcases r' with e' | ⟨ms', taken', rest'⟩ <;>
    simp_all [outlineText, grow]

private theorem outlineText_scanText (cs : List Char) :
    outlineText (scanText (fold cs)) = outlineText (scanText cs) := by
  have hescaped : ∀ {e : Char} {cs : List Char}, e ≠ '\n' →
      outlineText (scanText (fold cs)) = outlineText (scanText cs) →
      outlineText (scanText (fold ('\x5c' :: e :: cs))) = outlineText (scanText ('\x5c' :: e :: cs)) := by
    intro e cs he ih
    have he' : e.toLower ≠ '\n' := mt (toLower_eq_iff (by decide)).1 he
    rw [fold_cons, fold_cons, scanText_escaped he]
    exact (congrArg outlineText (scanText_escaped he' _)).trans (outlineText_grow (fold_fold ['\x5c', e]) ih)
  have hplain : ∀ {c : Char} {cs : List Char}, c ≠ '\x22' → c ≠ '\n' → c ≠ '\x5c' →
      outlineText (scanText (fold cs)) = outlineText (scanText cs) →
      outlineText (scanText (fold (c :: cs))) = outlineText (scanText (c :: cs)) := by
    intro c cs hquote hfeed hslash ih
    rw [fold_cons, scanText_plain hquote hfeed hslash, scanText_plain]
    · exact outlineText_grow (fold_fold [c]) ih
    · exact mt (toLower_eq_iff (by decide)).1 hquote
    · exact mt (toLower_eq_iff (by decide)).1 hfeed
    · exact mt (toLower_eq_iff (by decide)).1 hslash
  induction cs using scanText.induct with
  | case1 => rfl
  | case2 cs => simp [scanText, outlineText]
  | case3 => rfl
  | case4 => rfl
  | case5 => rfl
  | case6 e cs he _ _ _ _ ih => exact hescaped he ih
  | case7 e cs he _ _ ih => exact hescaped he ih
  | case8 c cs hquote hfeed hlast hescape _ _ _ _ ih => exact hplain hquote hfeed (ne_slash hlast hescape) ih
  | case9 c cs hquote hfeed hlast hescape _ _ ih => exact hplain hquote hfeed (ne_slash hlast hescape) ih

private theorem outline_closeCharacter {d e : Char} {taken taken' : List Char} (htaken : fold taken' = fold taken)
    (cs : List Char) :
    outline (.ok (closeCharacter d taken' (fold cs))) = outline (.ok (closeCharacter e taken cs)) := by
  by_cases hquote : ∃ rest, cs = '\x27' :: rest
  · obtain ⟨rest, rfl⟩ := hquote
    simp [closeCharacter, outline, htaken, Lexeme.outline]
  · have hcs : Avoids (· = '\x27') cs := avoids_eq fun rest h => hquote ⟨rest, h⟩
    have hcs' : Avoids (· = '\x27') (fold cs) := (avoids_fold (caseless_of_capitals (by decide))).2 hcs
    rw [closeCharacter_of_avoids d taken' hcs', closeCharacter_of_avoids e taken hcs]
    simp [outline, htaken, Lexeme.outline]

private theorem outline_scanCharacter (cs : List Char) :
    outline (scanCharacter (fold cs)) = outline (scanCharacter cs) := by
  fun_cases scanCharacter cs with
  | case1 => rfl
  | case2 => rfl
  | case3 => rfl
  | case4 => rfl
  | case5 e cs he =>
    have he' : e.toLower ≠ '\n' := mt (toLower_eq_iff (by decide)).1 he
    exact (congrArg outline (scanCharacter_escaped he' _)).trans
      (outline_closeCharacter (fold_fold ['\x27', '\x5c', e]) cs)
  | case6 c cs hfeed hlast hescape =>
    rw [fold_cons, scanCharacter_plain]
    · exact outline_closeCharacter (fold_fold ['\x27', c]) cs
    · exact mt (toLower_eq_iff (by decide)).1 hfeed
    · exact mt (toLower_eq_iff (by decide)).1 (ne_slash hlast hescape)

private theorem toLower_of_not_isWordStart {c : Char} (h : isWordStart c = false) : c.toLower = c := by
  refine toLower_of_notMem fun hc => ?_
  have hstart : capitalLetters.all isWordStart = true := by decide
  rw [List.all_eq_true.1 hstart c hc] at h
  cases h

/-- A text literal with its opening quote. -/
private def quoted : Except Refusal (List Char × List Char × List Char) → Scan
  | .ok (meant, taken, rest) => .ok ⟨.text (String.ofList meant), '\x22' :: taken, rest⟩
  | .error r => .error { r with text := '\x22' :: r.text }

private theorem scan_quote (cs : List Char) : scan '\x22' cs = quoted (scanText cs) := by
  unfold scan
  rw [if_neg (by decide), if_neg (by decide)]
  rcases h : scanText cs with r | ⟨meant, taken, rest⟩ <;> simp only [h, quoted]

private theorem outline_quoted {r r' : Except Refusal (List Char × List Char × List Char)}
    (h : outlineText r' = outlineText r) : outline (quoted r') = outline (quoted r) := by
  rcases r with e | ⟨ms, taken, rest⟩ <;> rcases r' with e' | ⟨ms', taken', rest'⟩ <;>
    simp_all [outlineText, quoted, outline, Lexeme.outline]

/-- A sign by itself, or a character that is none. -/
private def single (c : Char) (cs : List Char) : Scan :=
  match sign? c with
  | some l => .ok ⟨l, [c], cs⟩
  | none => .error ⟨.unexpectedCharacter c, [c]⟩

private theorem scan_single {c : Char} {cs : List Char} (hstart : ¬isWordStart c = true)
    (hdigit : ¬Text.isDigit c = true) (hmark : mark? c = none) (hquote : c ≠ '\x22' ∧ c ≠ '\x27')
    (hdouble : double? c = none ∨ Avoids (· = c) cs) :
    scan c cs = single c cs := by
  unfold scan
  rw [if_neg hstart, if_neg hdigit]
  split
  · cases hmark
  · cases hmark
  · exact absurd rfl hquote.1
  · exact absurd rfl hquote.2
  · rcases hdouble with h | h
    · cases h
    · cases avoids_cons.1 h
  · rcases hdouble with h | h
    · cases h
    · cases avoids_cons.1 h
  · rfl

/-- A text in small letters is read like the text itself, apart from the contents of literals. -/
private theorem outline_scan_fold (c : Char) (cs : List Char) :
    outline (scan c.toLower (fold cs)) = outline (scan c cs) := by
  by_cases hstart : isWordStart c = true
  · have hstart' : isWordStart c.toLower = true := (caseless_isWordStart c).trans hstart
    rw [Scans.scan_eq (.word hstart cs), Scans.scan_eq (.word hstart' (fold cs))]
    exact outline_scanWord (c :: cs)
  have hlower : c.toLower = c := toLower_of_not_isWordStart (by simpa using hstart)
  rw [hlower]
  by_cases hdigit : Text.isDigit c = true
  · have hfold := outline_scanNumber (c :: cs)
    rw [fold_cons, hlower] at hfold
    unfold scan
    rwa [if_neg hstart, if_neg hstart, if_pos hdigit, if_pos hdigit]
  by_cases hquote : c = '\x22'
  · rw [hquote, scan_quote, scan_quote]
    exact outline_quoted (outlineText_scanText cs)
  by_cases hapostrophe : c = '\x27'
  · rw [hapostrophe]
    exact outline_scanCharacter cs
  cases hmark : mark? c with
  | some radix =>
    have hfold := outline_scanDigits radix [c] cs
    rw [fold_cons, hlower] at hfold
    rw [scan_mark hmark, scan_mark hmark]
    exact hfold
  | none =>
    have hletter : isLetter c = false := by
      simp only [isWordStart, Bool.or_eq_true, not_or] at hstart
      simpa using hstart.1.1
    have hsame : Caseless (fun d => decide (d = c)) := by
      intro d
      simp only [toLower_eq_iff hletter]
    by_cases hdouble : double? c = none ∨ Avoids (· = c) cs
    · have hdouble' : double? c = none ∨ Avoids (· = c) (fold cs) := hdouble.imp_right (avoids_fold hsame).2
      rw [scan_single hstart hdigit hmark ⟨hquote, hapostrophe⟩ hdouble,
        scan_single hstart hdigit hmark ⟨hquote, hapostrophe⟩ hdouble']
      unfold single
      cases sign? c <;> simp [outline]
    · obtain ⟨hne, hhead⟩ := not_or.1 hdouble
      obtain ⟨l, hl⟩ := Option.ne_none_iff_exists'.1 hne
      have hcs : ∃ rest, cs = c :: rest := by
        refine Classical.byContradiction fun h => hhead (avoids_eq fun rest hcs => h ⟨rest, hcs⟩)
      obtain ⟨rest, rfl⟩ := hcs
      rw [fold_cons, hlower, Scans.scan_eq (.double hl rest), Scans.scan_eq (.double hl (fold rest))]
      simp [outline]

/-- Texts that differ in case only are read in the same way, apart from the contents of literals. -/
theorem outline_scan {c c' : Char} {cs cs' : List Char} (h : fold (c' :: cs') = fold (c :: cs)) :
    outline (scan c' cs') = outline (scan c cs) := by
  obtain ⟨hc, hcs⟩ : c'.toLower = c.toLower ∧ fold cs' = fold cs := by simpa using h
  rw [← outline_scan_fold c', hc, hcs, outline_scan_fold]

theorem exists_of_scan_ok {c c' : Char} {cs cs' : List Char} {s : Scanned} (h : fold (c' :: cs') = fold (c :: cs))
    (hs : scan c cs = .ok s) : ∃ s', scan c' cs' = .ok s' ∧ s'.lexeme.outline = s.lexeme.outline ∧
      fold s'.text = fold s.text ∧ fold s'.rest = fold s.rest := by
  have houtline := outline_scan h
  rw [hs] at houtline
  rcases hs' : scan c' cs' with r | s'
  · rw [hs'] at houtline
    cases houtline
  · rw [hs'] at houtline
    exact ⟨s', rfl, by simpa [outline] using houtline⟩

theorem exists_of_scan_error {c c' : Char} {cs cs' : List Char} {r : Refusal} (h : fold (c' :: cs') = fold (c :: cs))
    (hr : scan c cs = .error r) : ∃ r', scan c' cs' = .error r' ∧ fold r'.text = fold r.text := by
  have houtline := outline_scan h
  rw [hr] at houtline
  rcases hr' : scan c' cs' with r' | s
  · rw [hr'] at houtline
    exact ⟨r', rfl, by simpa [outline] using houtline⟩
  · rw [hr'] at houtline
    cases houtline

/-- A lexeme is told by its characters. -/
theorem lexeme_of_text {c : Char} {cs cs' : List Char} {s s' : Scanned} (hs : scan c cs = .ok s)
    (hs' : scan c cs' = .ok s') (h : s'.text = s.text) : s'.lexeme = s.lexeme := by
  obtain ⟨text, htext, halone⟩ := scan_alone hs
  obtain ⟨text', htext', halone'⟩ := scan_alone hs'
  have heq : text' = text := by
    rw [h, htext] at htext'
    exact (List.cons.inj htext').2.symm
  rw [heq, halone] at halone'
  injection halone' with halone'
  injection halone' with hlexeme
  exact hlexeme.symm

end Lexer

end Mc6809
