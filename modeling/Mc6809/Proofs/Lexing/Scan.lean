import Mathlib.Data.List.TakeWhile
import Mc6809.Token.Lexer

/-!
# What a lexeme depends on

A lexeme is read from its own characters and at most one more: `scan` gives the same lexeme for the same characters as
long as what follows starts in the same way or with a character that goes with no lexeme (`scan_append`).  Line feeds
are lexemes by themselves and occur in no other (`newline_of_scan`).
-/

namespace Mc6809.Lexer

/-- The characters that end a lexeme wherever they stand. -/
def isSeparator (c : Char) : Bool :=
  isSkipped c || opensComment c || c = '\n'

/-- What follows a lexeme may be replaced: by a text that starts with the same character, or by one that is empty or
starts with a separator. -/
def Replaces (rest rest' : List Char) : Prop :=
  rest'.head? = rest.head? ∨ ∀ c ∈ rest'.head?, isSeparator c = true

/-- A text that does not start with a character of some class. -/
def Avoids (p : Char → Bool) (rest : List Char) : Prop :=
  ∀ c ∈ rest.head?, p c = false

@[simp]
theorem avoids_nil (p : Char → Bool) : Avoids p [] := by
  rintro c ⟨⟩

@[simp]
theorem avoids_cons {p : Char → Bool} {c : Char} {rest : List Char} : Avoids p (c :: rest) ↔ p c = false := by
  refine ⟨fun h => h c rfl, ?_⟩
  rintro h _ ⟨⟩
  exact h

theorem avoids_eq {d : Char} {cs : List Char} (h : ∀ rest, cs ≠ d :: rest) : Avoids (· = d) cs := by
  intro c hc
  refine decide_eq_false ?_
  rintro rfl
  obtain ⟨rest, rfl⟩ := List.head?_eq_some_iff.1 hc
  exact h rest rfl

private theorem isSeparator_iff {c : Char} :
    isSeparator c = true ↔ c = ' ' ∨ c = '\t' ∨ c = '\r' ∨ c = ';' ∨ c = '*' ∨ c = '\n' := by
  simp [isSeparator, isSkipped, opensComment, or_assoc]

namespace Replaces

variable {rest rest' : List Char} {p : Char → Bool}

private theorem avoids (h : Replaces rest rest') (hp : ∀ c, isSeparator c = true → p c = false) (ha : Avoids p rest) :
    Avoids p rest' := by
  rcases h with h | h
  · rw [Avoids, h]
    exact ha
  · exact fun c hc => hp c (h c hc)

theorem append (h : Replaces rest rest') (front : List Char) : Replaces (front ++ rest) (front ++ rest') := by
  cases front with
  | nil => exact h
  | cons c cs => exact .inl rfl

end Replaces

private theorem ne_of_isSeparator {c d : Char} (hd : isSeparator d = false) (hc : isSeparator c = true) :
    decide (c = d) = false := by
  refine decide_eq_false ?_
  rintro rfl
  rw [hd] at hc
  cases hc

private theorem isWordChar_of_isSeparator {c : Char} (h : isSeparator c = true) : isWordChar c = false := by
  rcases isSeparator_iff.1 h with rfl | rfl | rfl | rfl | rfl | rfl <;> decide

private theorem isDigitOf_of_isSeparator (radix : Radix) {c : Char} (h : isSeparator c = true) :
    isDigitOf radix c = false := by
  rcases isSeparator_iff.1 h with rfl | rfl | rfl | rfl | rfl | rfl <;> cases radix <;> decide

theorem avoids_dropWhile (p : Char → Bool) (cs : List Char) : Avoids p (cs.dropWhile p) := by
  intro c hc
  have := List.head?_dropWhile_not p cs
  rw [Option.mem_def.1 hc] at this
  simpa using this

theorem takeWhile_append_of_avoids {p : Char → Bool} {cs rest : List Char} (hcs : ∀ c ∈ cs, p c = true)
    (hr : Avoids p rest) : (cs ++ rest).takeWhile p = cs ∧ (cs ++ rest).dropWhile p = rest := by
  rw [List.takeWhile_append_of_pos hcs, List.dropWhile_append_of_pos hcs]
  cases rest with
  | nil => simp
  | cons c rest => simp [avoids_cons.1 hr]

/-! ### Words and numbers -/

theorem scanWord_of_colon {cs rest : List Char} (hd : cs.dropWhile isWordChar = ':' :: rest) :
    scanWord cs = ⟨.label (String.ofList ((cs.takeWhile isWordChar).map Char.toLower)),
      cs.takeWhile isWordChar ++ [':'], rest⟩ := by
  simp only [scanWord, hd]

theorem scanWord_of_avoids {cs : List Char} (h : Avoids (· = ':') (cs.dropWhile isWordChar)) :
    scanWord cs = ⟨classify (String.ofList ((cs.takeWhile isWordChar).map Char.toLower)),
      cs.takeWhile isWordChar, cs.dropWhile isWordChar⟩ := by
  unfold scanWord
  dsimp only
  split
  · next rest hd =>
    rw [hd] at h
    cases h ':' rfl
  · rfl

private theorem scanWord_append {cs rest' : List Char} (hr : Replaces (scanWord cs).rest rest') :
    scanWord ((scanWord cs).text ++ rest') = { scanWord cs with rest := rest' } := by
  have hword : ∀ c ∈ cs.takeWhile isWordChar, isWordChar c = true := fun c => List.mem_takeWhile_imp
  by_cases hcolon : ∃ rest, cs.dropWhile isWordChar = ':' :: rest
  · obtain ⟨rest, hd⟩ := hcolon
    -- The colon ends the word, whatever follows it.
    have hend : Avoids isWordChar (':' :: rest') := avoids_cons.2 (by decide)
    obtain ⟨htake, hdrop⟩ := takeWhile_append_of_avoids hword hend
    rw [scanWord_of_colon hd, List.append_assoc, List.singleton_append, scanWord_of_colon hdrop, htake]
  · have hnot : Avoids (· = ':') (cs.dropWhile isWordChar) := avoids_eq fun rest hd => hcolon ⟨rest, hd⟩
    rw [scanWord_of_avoids hnot] at hr ⊢
    obtain ⟨htake, hdrop⟩ := takeWhile_append_of_avoids hword
      (hr.avoids (fun _ => isWordChar_of_isSeparator) (avoids_dropWhile isWordChar cs))
    have hnot' : Avoids (· = ':') rest' := hr.avoids (fun _ => ne_of_isSeparator (by decide)) hnot
    rw [← hdrop] at hnot'
    rw [scanWord_of_avoids hnot', htake, hdrop]

theorem scanDigits_eq_ok {radix : Radix} {mark cs : List Char} {s : Scanned} :
    scanDigits radix mark cs = .ok s ↔
      cs.takeWhile (isDigitOf radix) ≠ [] ∧ Avoids isWordChar (cs.dropWhile (isDigitOf radix)) ∧
        s = ⟨.integer (numberOf radix (cs.takeWhile (isDigitOf radix))), mark ++ cs.takeWhile (isDigitOf radix),
          cs.dropWhile (isDigitOf radix)⟩ := by
  unfold scanDigits
  dsimp only
  split
  · next h => simp [h]
  · next h =>
    rcases cs.dropWhile (isDigitOf radix) with _ | ⟨c, rest⟩
    · simp [h, @eq_comm _ s]
    · dsimp only
      by_cases hc : isWordChar c = true
      · simp [hc]
      · simp [h, hc, @eq_comm _ s]

private theorem scanDigits_append {radix : Radix} {mark cs rest' : List Char} {s : Scanned}
    (h : scanDigits radix mark cs = .ok s) (hr : Replaces s.rest rest') :
    s.text = mark ++ cs.takeWhile (isDigitOf radix) ∧
      scanDigits radix mark (cs.takeWhile (isDigitOf radix) ++ rest') = .ok { s with rest := rest' } := by
  obtain ⟨hne, hword, rfl⟩ := scanDigits_eq_ok.1 h
  obtain ⟨htake, hdrop⟩ := takeWhile_append_of_avoids (fun c => List.mem_takeWhile_imp)
    (hr.avoids (fun _ => isDigitOf_of_isSeparator radix) (avoids_dropWhile (isDigitOf radix) cs))
  refine ⟨rfl, scanDigits_eq_ok.2 ⟨?_, ?_, ?_⟩⟩
  · rw [htake]
    exact hne
  · rw [hdrop]
    exact hr.avoids (fun _ => isWordChar_of_isSeparator) hword
  · rw [htake, hdrop]

/-- The letters that mark a notation after a zero. -/
def isMark (c : Char) : Bool :=
  c = 'x' || c = 'X' || c = 'b' || c = 'B'

theorem isMark_iff {c : Char} : isMark c = true ↔ c = 'x' ∨ c = 'X' ∨ c = 'b' ∨ c = 'B' := by
  simp [isMark, or_assoc]

private theorem isMark_of_isDigitOf {c : Char} (h : isDigitOf .decimal c = true) : isMark c = false := by
  rw [← Bool.not_eq_true]
  intro hm
  rcases isMark_iff.1 hm with rfl | rfl | rfl | rfl <;> revert h <;> decide

private theorem isMark_of_isWordChar {c : Char} (h : isWordChar c = false) : isMark c = false := by
  rw [← Bool.not_eq_true]
  intro hm
  rcases isMark_iff.1 hm with rfl | rfl | rfl | rfl <;> revert h <;> decide

/-- A number without the mark of a notation, which is a zero and a letter.  Behind the letter of the binary notation a
binary digit has to follow. -/
def Unmarked (c : Char) (cs : List Char) : Prop :=
  c = '0' → ∀ m us, cs = m :: us → isMark m = true → (m = 'b' ∨ m = 'B') ∧ Avoids (fun d => d = '0' || d = '1') us

theorem unmarked_of_avoids {c : Char} {cs : List Char} (h : Avoids isMark cs) : Unmarked c cs := by
  rintro - m us rfl hm
  rw [avoids_cons.1 h] at hm
  cases hm

theorem scanNumber_of_unmarked {c : Char} {cs : List Char} (h : Unmarked c cs) :
    scanNumber (c :: cs) = scanDigits .decimal [] (c :: cs) := by
  unfold scanNumber
  split
  case h_7 => rfl
  -- Each of the other cases starts with a mark.
  all_goals
    rename_i heq
    cases heq
    obtain ⟨hm, hd⟩ := h rfl _ _ rfl rfl
    first | cases avoids_cons.1 hd | simp at hm

private theorem scanDecimal_append {cs rest' : List Char} {s : Scanned} (h : scanDigits .decimal [] cs = .ok s)
    (hr : Replaces s.rest rest') : scanNumber (s.text ++ rest') = .ok { s with rest := rest' } := by
  obtain ⟨htext, hs⟩ := scanDigits_append h hr
  obtain ⟨hne, hword, hscanned⟩ := scanDigits_eq_ok.1 h
  have hdigits : ∀ c ∈ cs.takeWhile (isDigitOf .decimal), isDigitOf .decimal c = true := fun c => List.mem_takeWhile_imp
  have hrest : Avoids isWordChar rest' := by
    refine hr.avoids (fun _ => isWordChar_of_isSeparator) ?_
    rw [hscanned]
    exact hword
  rw [← hs, htext, List.nil_append]
  generalize cs.takeWhile (isDigitOf .decimal) = ds at hne hdigits
  rcases ds with _ | ⟨d, _ | ⟨d', ds⟩⟩
  · exact absurd rfl hne
  · exact scanNumber_of_unmarked (unmarked_of_avoids fun c hc => isMark_of_isWordChar (hrest c hc))
  · refine scanNumber_of_unmarked (unmarked_of_avoids (avoids_cons.2 (isMark_of_isDigitOf (hdigits d' ?_))))
    exact List.mem_cons_of_mem _ (List.mem_cons_self ..)

private theorem scanNumber_append {cs rest' : List Char} {s : Scanned} (h : scanNumber cs = .ok s)
    (hr : Replaces s.rest rest') : scanNumber (s.text ++ rest') = .ok { s with rest := rest' } := by
  have hhex : ∀ {mark cs : List Char}, scanDigits .hexadecimal mark cs = .ok s →
      (∀ us, scanNumber (mark ++ us) = scanDigits .hexadecimal mark us) →
      scanNumber (s.text ++ rest') = .ok { s with rest := rest' } := by
    intro mark cs h hmark
    obtain ⟨htext, hs⟩ := scanDigits_append h hr
    rw [← hs, htext, List.append_assoc, hmark]
  have hbinary : ∀ {mark cs : List Char} {d : Char}, isDigitOf .binary d = true →
      scanDigits .binary mark (d :: cs) = .ok s →
      (∀ us, scanNumber (mark ++ d :: us) = scanDigits .binary mark (d :: us)) →
      scanNumber (s.text ++ rest') = .ok { s with rest := rest' } := by
    intro mark cs d hd h hmark
    obtain ⟨htext, hs⟩ := scanDigits_append h hr
    rw [List.takeWhile_cons_of_pos hd] at htext hs
    rw [← hs, htext, List.append_assoc, List.cons_append, hmark]
  unfold scanNumber at h
  split at h
  · exact hhex h fun _ => rfl
  · exact hhex h fun _ => rfl
  · exact hbinary (by decide) h fun _ => rfl
  · exact hbinary (by decide) h fun _ => rfl
  · exact hbinary (by decide) h fun _ => rfl
  · exact hbinary (by decide) h fun _ => rfl
  · exact scanDecimal_append h hr

/-! ### Literals -/

/-- A text literal with another character in front, which was written as `written`. -/
def grow (meant : Char) (written : List Char) :
    Except Refusal (List Char × List Char × List Char) → Except Refusal (List Char × List Char × List Char)
  | .ok (ms, taken, rest) => .ok (meant :: ms, written ++ taken, rest)
  | .error r => .error { r with text := written ++ r.text }

theorem scanText_escaped {e : Char} (he : e ≠ '\n') (cs : List Char) :
    scanText ('\x5c' :: e :: cs) = grow (unescape e) ['\x5c', e] (scanText cs) := by
  rw [scanText, if_neg he]
  rcases scanText cs with r | ⟨meant, taken, rest⟩ <;> rfl

theorem scanText_plain {c : Char} (hquote : c ≠ '\x22') (hfeed : c ≠ '\n') (hslash : c ≠ '\x5c') (cs : List Char) :
    scanText (c :: cs) = grow c [c] (scanText cs) := by
  rw [scanText]
  · rcases scanText cs with r | ⟨meant, taken, rest⟩ <;> rfl
  · exact hquote
  · exact hfeed
  · exact fun hc _ => hslash hc
  · exact fun _ _ hc _ => hslash hc

/-- What is not read as a backslash at the end or in front of a character is no backslash. -/
theorem ne_slash {c : Char} {cs : List Char} (hlast : c = '\x5c' → cs = [] → False)
    (hescape : ∀ e us, c = '\x5c' → cs = e :: us → False) : c ≠ '\x5c' := by
  intro hc
  cases cs with
  | nil => exact hlast hc rfl
  | cons e cs => exact hescape e cs hc rfl

private theorem scanText_append_rest {cs meant taken rest : List Char} (h : scanText cs = .ok (meant, taken, rest))
    (rest' : List Char) : scanText (taken ++ rest') = .ok (meant, taken, rest') := by
  fun_induction scanText cs generalizing meant taken rest with
  | case1 => cases h
  | case2 cs =>
    cases h
    rfl
  | case3 => cases h
  | case4 => cases h
  | case5 => cases h
  | case6 e cs he meant' taken' rest'' heq ih =>
    cases h
    rw [List.cons_append, List.cons_append, scanText_escaped he, ih heq]
    rfl
  | case7 => cases h
  | case8 c cs hquote hfeed hlast hescape meant' taken' rest'' heq ih =>
    cases h
    rw [List.cons_append, scanText_plain hquote hfeed (ne_slash hlast hescape), ih heq]
    rfl
  | case9 => cases h

theorem closeCharacter_of_avoids (c : Char) (taken : List Char) {cs : List Char}
    (h : Avoids (· = '\x27') cs) : closeCharacter c taken cs = ⟨.char c, taken, cs⟩ := by
  unfold closeCharacter
  split
  · cases avoids_cons.1 h
  · rfl

private theorem closeCharacter_append_rest {c : Char} {taken cs rest' : List Char}
    (hr : Replaces (closeCharacter c taken cs).rest rest') :
    ∃ close, (closeCharacter c taken cs).text = taken ++ close ∧
      closeCharacter c taken (close ++ rest') = { closeCharacter c taken cs with rest := rest' } := by
  by_cases hquote : ∃ rest, cs = '\x27' :: rest
  · obtain ⟨rest, rfl⟩ := hquote
    exact ⟨['\x27'], rfl, rfl⟩
  · have hnot : Avoids (· = '\x27') cs := avoids_eq fun rest hcs => hquote ⟨rest, hcs⟩
    rw [closeCharacter_of_avoids c taken hnot] at hr ⊢
    have hnot' : Avoids (· = '\x27') rest' := hr.avoids (fun _ => ne_of_isSeparator (by decide)) hnot
    exact ⟨[], (List.append_nil _).symm, closeCharacter_of_avoids c taken hnot'⟩

theorem scanCharacter_escaped {e : Char} (he : e ≠ '\n') (cs : List Char) :
    scanCharacter ('\x5c' :: e :: cs) = .ok (closeCharacter (unescape e) ['\x27', '\x5c', e] cs) := by
  rw [scanCharacter, if_neg he]

theorem scanCharacter_plain {c : Char} (hfeed : c ≠ '\n') (hslash : c ≠ '\x5c') (cs : List Char) :
    scanCharacter (c :: cs) = .ok (closeCharacter c ['\x27', c] cs) := by
  rw [scanCharacter]
  · exact hfeed
  · exact fun hc _ => hslash hc
  · exact fun _ _ hc _ => hslash hc

private theorem scanCharacter_append {cs rest' : List Char} {s : Scanned} (h : scanCharacter cs = .ok s)
    (hr : Replaces s.rest rest') :
    ∃ text, s.text = '\x27' :: text ∧ scanCharacter (text ++ rest') = .ok { s with rest := rest' } := by
  unfold scanCharacter at h
  split at h
  · cases h
  · cases h
  · cases h
  · next e cs =>
    split at h
    · cases h
    · next he =>
      cases h
      obtain ⟨close, htext, hclose⟩ := closeCharacter_append_rest hr
      refine ⟨'\x5c' :: e :: close, htext, ?_⟩
      rw [List.cons_append, List.cons_append, scanCharacter_escaped he, hclose]
  · next c cs hfeed hlast hescape =>
    cases h
    obtain ⟨close, htext, hclose⟩ := closeCharacter_append_rest hr
    refine ⟨c :: close, htext, ?_⟩
    rw [List.cons_append, scanCharacter_plain hfeed (ne_slash hlast hescape), hclose]

/-! ### Lexemes -/

/-- The notation that a character marks. -/
def mark? : Char → Option Radix
  | '$' => some .hexadecimal
  | '%' => some .binary
  | _ => none

theorem scan_mark {c : Char} {radix : Radix} (h : mark? c = some radix) (cs : List Char) :
    scan c cs = scanDigits radix [c] cs := by
  unfold mark? at h
  split at h <;> cases h <;> rfl

/-- The lexemes of two equal characters. -/
def double? : Char → Option Lexeme
  | '+' => some .inc2
  | '-' => some .dec2
  | _ => none

/-- The ways in which a lexeme can be read. -/
inductive Scans : Char → List Char → Scanned → Prop
  | word {c : Char} (hc : isWordStart c = true) (cs : List Char) : Scans c cs (scanWord (c :: cs))
  | number {c : Char} {cs : List Char} {s : Scanned} (hc : isWordStart c = false) (hd : Text.isDigit c = true)
      (h : scanNumber (c :: cs) = .ok s) : Scans c cs s
  | marked {c : Char} {cs : List Char} {s : Scanned} {radix : Radix} (hm : mark? c = some radix)
      (h : scanDigits radix [c] cs = .ok s) : Scans c cs s
  | text {cs meant taken rest : List Char} (h : scanText cs = .ok (meant, taken, rest)) :
      Scans '\x22' cs ⟨.text (String.ofList meant), '\x22' :: taken, rest⟩
  | character {cs : List Char} {s : Scanned} (h : scanCharacter cs = .ok s) : Scans '\x27' cs s
  | double {c : Char} {l : Lexeme} (hd : double? c = some l) (rest : List Char) :
      Scans c (c :: rest) ⟨l, [c, c], rest⟩
  | sign {c : Char} {cs : List Char} {l : Lexeme} (hs : sign? c = some l)
      (hd : double? c ≠ none → Avoids (· = c) cs) : Scans c cs ⟨l, [c], cs⟩

/-- A lexeme is read in one of these ways. -/
theorem Scans.of_scan {c : Char} {cs : List Char} {s : Scanned} (h : scan c cs = .ok s) : Scans c cs s := by
  unfold scan at h
  split at h
  · next hc =>
    cases h
    exact .word hc cs
  · next hc =>
    have hc' : isWordStart c = false := by simpa using hc
    split at h
    · next hd => exact .number hc' hd h
    · split at h
      · exact .marked rfl h
      · exact .marked rfl h
      · split at h
        · next heq =>
          cases h
          exact .text heq
        · cases h
      · exact .character h
      · cases h
        exact .double rfl _
      · cases h
        exact .double rfl _
      · next c cs _ _ _ _ hinc hdec =>
        split at h
        · next l hl =>
          cases h
          refine .sign hl fun hd => avoids_eq fun rest hcs => ?_
          unfold double? at hd
          split at hd
          · exact hinc rest rfl hcs
          · exact hdec rest rfl hcs
          · exact hd rfl
        · cases h

theorem Scans.scan_eq {c : Char} {cs : List Char} {s : Scanned} (h : Scans c cs s) : scan c cs = .ok s := by
  unfold scan
  cases h with
  | word hc => rw [if_pos hc]
  | number hc hd h => rw [if_neg (by simp [hc]), if_pos hd, h]
  | marked hm h => exact (scan_mark hm _).trans h
  | text h =>
    rw [if_neg (by decide), if_neg (by decide)]
    simp only [h]
  | character h =>
    rw [if_neg (by decide), if_neg (by decide)]
    exact h
  | double hd rest =>
    unfold double? at hd
    split at hd
    · cases hd
      rw [if_neg (by decide), if_neg (by decide)]
      rfl
    · cases hd
      rw [if_neg (by decide), if_neg (by decide)]
      rfl
    · cases hd
  | sign hs hd =>
    unfold sign? at hs
    split at hs
    all_goals cases hs
    all_goals rw [if_neg (by decide), if_neg (by decide)]
    all_goals try rfl
    -- What is left are the two characters that could also be doubled.
    all_goals have hcs := hd (by decide)
    all_goals split <;> simp_all [sign?]

theorem exists_text_of_scan {c : Char} {cs : List Char} {s : Scanned} (h : scan c cs = .ok s) :
    ∃ text, s.text = c :: text ∧ cs = text ++ s.rest := by
  obtain ⟨happend, hne⟩ := scan_text_append_rest h
  rcases htext : s.text with _ | ⟨d, text⟩
  · exact absurd htext hne
  · rw [htext, List.cons_append, List.cons.injEq] at happend
    exact ⟨text, by rw [happend.1], happend.2.symm⟩

/-- Reading a lexeme looks no further than the character after it. The same lexeme is read when what follows is
replaced by a text that starts in the same way or with a separator. -/
theorem scan_append {c : Char} {cs rest' : List Char} {s : Scanned} (h : scan c cs = .ok s)
    (hr : Replaces s.rest rest') :
    ∃ text, s.text = c :: text ∧ scan c (text ++ rest') = .ok { s with rest := rest' } := by
  obtain ⟨text, htext, -⟩ := exists_text_of_scan h
  refine ⟨text, htext, Scans.scan_eq ?_⟩
  cases Scans.of_scan h with
  | word hc =>
    have hs := scanWord_append hr
    rw [htext, List.cons_append] at hs
    rw [← hs]
    exact .word hc _
  | number hc hd h =>
    have hs := scanNumber_append h hr
    rw [congrArg (· ++ rest') htext, List.cons_append] at hs
    exact .number hc hd hs
  | marked hm h =>
    obtain ⟨htaken, hs⟩ := scanDigits_append h hr
    rw [htext, List.singleton_append, List.cons.injEq] at htaken
    rw [htaken.2]
    exact .marked hm hs
  | text htaken =>
    cases htext
    exact .text (scanText_append_rest htaken rest')
  | character h =>
    obtain ⟨taken, htaken, hs⟩ := scanCharacter_append h hr
    rw [htext, List.cons.injEq] at htaken
    rw [htaken.2]
    exact .character hs
  | double hd rest =>
    cases htext
    exact .double hd rest'
  | sign hs hd =>
    cases htext
    refine .sign hs fun h => hr.avoids (fun d hsep => decide_eq_false ?_) (hd h)
    rintro rfl
    rcases isSeparator_iff.1 hsep with rfl | rfl | rfl | rfl | rfl | rfl <;> exact h rfl

/-- A lexeme is read from its characters alone. -/
theorem scan_alone {c : Char} {cs : List Char} {s : Scanned} (h : scan c cs = .ok s) :
    ∃ text, s.text = c :: text ∧ scan c text = .ok { s with rest := [] } := by
  have hend : Replaces s.rest [] := .inr (by rintro d ⟨⟩)
  obtain ⟨text, htext, halone⟩ := scan_append h hend
  rw [List.append_nil] at halone
  exact ⟨text, htext, halone⟩

/-- No lexeme starts like a blank or a comment. -/
theorem not_gap_of_scan {c : Char} {cs : List Char} {s : Scanned} (h : scan c cs = .ok s) :
    isSkipped c = false ∧ opensComment c = false := by
  have hrefused : ∀ d, d = ' ' ∨ d = '\t' ∨ d = '\r' ∨ d = ';' ∨ d = '*' → scan d cs ≠ .ok s := by
    rintro d (rfl | rfl | rfl | rfl | rfl) hd <;> cases Scans.of_scan hd <;> contradiction
  constructor
  · refine Bool.eq_false_iff.2 fun hc => hrefused c ?_ h
    simp [isSkipped] at hc
    grind
  · refine Bool.eq_false_iff.2 fun hc => hrefused c ?_ h
    simp [opensComment] at hc
    grind

theorem integer_of_scanDigits {radix : Radix} {mark cs : List Char} {s : Scanned}
    (h : scanDigits radix mark cs = .ok s) : ∃ n, s.lexeme = .integer n := by
  obtain ⟨-, -, rfl⟩ := scanDigits_eq_ok.1 h
  exact ⟨_, rfl⟩

theorem char_of_scanCharacter {cs : List Char} {s : Scanned} (h : scanCharacter cs = .ok s) :
    ∃ c, s.lexeme = .char c := by
  have hclose : ∀ c taken cs, (closeCharacter c taken cs).lexeme = .char c := by
    intro c taken cs
    unfold closeCharacter
    split <;> rfl
  unfold scanCharacter at h
  split at h <;> try split at h
  all_goals cases h
  all_goals exact ⟨_, hclose _ _ _⟩

/-- No characters are read as the end mark. -/
theorem lexeme_ne_eof_of_scan {c : Char} {cs : List Char} {s : Scanned} (h : scan c cs = .ok s) :
    s.lexeme ≠ .eof := by
  intro heof
  have hdigits : ∀ {radix : Radix} {mark cs : List Char}, scanDigits radix mark cs = .ok s → False := by
    intro radix mark cs h
    obtain ⟨n, hn⟩ := integer_of_scanDigits h
    cases hn.symm.trans heof
  cases Scans.of_scan h with
  | word hc =>
    revert heof
    unfold scanWord
    dsimp only
    split
    · simp
    · unfold classify
      split <;> simp
  | number _ _ h =>
    unfold scanNumber at h
    split at h <;> exact hdigits h
  | marked _ h => exact hdigits h
  | text => cases heof
  | character h =>
    obtain ⟨d, hd⟩ := char_of_scanCharacter h
    cases hd.symm.trans heof
  | double hd =>
    cases heof
    unfold double? at hd
    split at hd <;> cases hd
  | sign hs =>
    cases heof
    unfold sign? at hs
    split at hs <;> cases hs

/-! ### Line feeds -/

private theorem not_feed_of_scanDigits {radix : Radix} {mark cs : List Char} {s : Scanned}
    (h : scanDigits radix mark cs = .ok s) (hmark : '\n' ∉ mark) : '\n' ∉ s.text := by
  obtain ⟨-, -, rfl⟩ := scanDigits_eq_ok.1 h
  rw [List.mem_append, not_or]
  refine ⟨hmark, fun hfeed => ?_⟩
  have hdigit : isDigitOf radix '\n' = true := List.mem_takeWhile_imp hfeed
  rw [isDigitOf_of_isSeparator radix (by decide)] at hdigit
  cases hdigit

private theorem not_feed_of_scanWord (cs : List Char) : '\n' ∉ (scanWord cs).text := by
  have hword : '\n' ∉ cs.takeWhile isWordChar := fun h => absurd (List.mem_takeWhile_imp h) (by decide)
  unfold scanWord
  dsimp only
  split
  · simpa using hword
  · exact hword

private theorem not_feed_of_scanText {cs meant taken rest : List Char} (h : scanText cs = .ok (meant, taken, rest)) :
    '\n' ∉ taken := by
  fun_induction scanText cs generalizing meant taken rest with
  | case1 => cases h
  | case2 cs =>
    cases h
    decide
  | case3 => cases h
  | case4 => cases h
  | case5 => cases h
  | case6 e cs he meant' taken' rest' heq ih =>
    cases h
    simp [ih heq, Ne.symm he]
  | case7 => cases h
  | case8 c cs hquote hfeed hlast hescape meant' taken' rest' heq ih =>
    cases h
    simp [ih heq, Ne.symm hfeed]
  | case9 => cases h

private theorem not_feed_of_closeCharacter {c : Char} {taken cs : List Char} (h : '\n' ∉ taken) :
    '\n' ∉ (closeCharacter c taken cs).text := by
  unfold closeCharacter
  split
  · simpa using h
  · exact h

private theorem not_feed_of_scanCharacter {cs : List Char} {s : Scanned} (h : scanCharacter cs = .ok s) :
    '\n' ∉ s.text := by
  unfold scanCharacter at h
  split at h
  · cases h
  · cases h
  · cases h
  · split at h
    · cases h
    · next he =>
      cases h
      exact not_feed_of_closeCharacter (by simp [Ne.symm he])
  · next hfeed _ _ =>
    cases h
    exact not_feed_of_closeCharacter (by simp [Ne.symm hfeed])

/-- A line feed is a lexeme, and part of no other. -/
theorem newline_of_scan {c : Char} {cs : List Char} {s : Scanned} (h : scan c cs = .ok s) (hfeed : '\n' ∈ s.text) :
    s = ⟨.newline, ['\n'], cs⟩ ∧ c = '\n' := by
  cases Scans.of_scan h with
  | word hc => exact absurd hfeed (not_feed_of_scanWord _)
  | number hc hd h =>
    unfold scanNumber at h
    split at h <;> exact absurd hfeed (not_feed_of_scanDigits h (by decide))
  | marked hm h =>
    refine absurd hfeed (not_feed_of_scanDigits h fun hc => ?_)
    rcases List.mem_singleton.1 hc
    cases hm
  | text htaken => exact absurd hfeed (by simpa using not_feed_of_scanText htaken)
  | character h => exact absurd hfeed (not_feed_of_scanCharacter h)
  | double hd rest =>
    have hc : '\n' = c := by simpa using hfeed
    cases hc
    cases hd
  | sign hs hd =>
    rcases List.mem_singleton.1 hfeed
    cases hs
    exact ⟨rfl, rfl⟩

end Mc6809.Lexer
