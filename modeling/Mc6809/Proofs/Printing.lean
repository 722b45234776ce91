import Mc6809.Proofs.Lexing.Case
import Mc6809.Proofs.Lexing.Lexemes

/-!
# Printing lexemes

Every lexeme can be written down so that it is read back (`scan_print`): words and signs in small letters, numbers in
decimal notation, and literals with the characters escaped that would end them.  With a blank between any two of them
the lexemes of a source are read back in their order (`Lexes.print`, `tokenize_print`).
-/

namespace Mc6809

/-- A character of a literal, escaped if it is a line feed or one of the given characters. -/
def escaped (marks : List Char) (c : Char) : List Char :=
  if c = '\n' then ['\x5c', 'n'] else if c ∈ marks then ['\x5c', c] else [c]

/-- How a lexeme is written.  The end mark is not written at all. -/
def Lexeme.print : Lexeme → List Char
  | .label name => name.toList ++ [':']
  | .integer n => (toString n).toList
  | .text s => '\x22' :: s.toList.flatMap (escaped ['\x5c', '\x22']) ++ ['\x22']
  | .char c => '\x27' :: escaped ['\x5c'] c ++ ['\x27']
  | .newline => ['\n']
  | .eof => []
  | l => (l.word?.getD "").toList

private theorem Lexeme.print_label (name : String) : (Lexeme.label name).print = name.toList ++ [':'] :=
  rfl

private theorem Lexeme.print_char (c : Char) : (Lexeme.char c).print = '\x27' :: escaped ['\x5c'] c ++ ['\x27'] :=
  rfl

/-- Lexemes with one blank between any two of them. -/
def printAll (ls : List Lexeme) : List Char :=
  [' '].intercalate (ls.map Lexeme.print)

namespace Lexer

/-! ### Numbers -/

/-- The decimal digits among all characters. -/
private theorem digit_cases {c : Char} (h : c.isDigit = true) :
    isWordStart c = false ∧ Text.isDigit c = true ∧ isMark c = false ∧
      Numeral.digit? 10 c = some (c.toNat - '0'.toNat) := by
  have hall : ∀ n, n < 58 → 48 ≤ n → isWordStart (Char.ofNat n) = false ∧ Text.isDigit (Char.ofNat n) = true ∧
      isMark (Char.ofNat n) = false ∧
      Numeral.digit? 10 (Char.ofNat n) = some ((Char.ofNat n).toNat - '0'.toNat) := by
    decide +kernel
  rw [Char.isDigit, Bool.and_eq_true, decide_eq_true_eq, decide_eq_true_eq] at h
  have hlow : 48 ≤ c.toNat := UInt32.le_iff_toNat_le.1 h.1
  have hhigh : c.toNat ≤ 57 := UInt32.le_iff_toNat_le.1 h.2
  have := hall c.toNat (by omega) hlow
  rwa [Char.ofNat_toNat] at this

private theorem numberOf_toDigits (n : Nat) : numberOf .decimal (Nat.toDigits 10 n) = n := by
  have hstep : ∀ (ds : List Char) (m : Nat), (∀ c ∈ ds, c.isDigit = true) →
      ds.foldl (fun n c => n * 10 + (Numeral.digit? 10 c).getD 0) m = Nat.ofDigitChars 10 ds m := by
    intro ds
    induction ds with
    | nil => exact fun m _ => rfl
    | cons c ds ih =>
      intro m h
      obtain ⟨-, -, -, hc⟩ := digit_cases (h c (List.mem_cons_self ..))
      rw [List.foldl_cons, ih _ fun d hd => h d (List.mem_cons_of_mem _ hd), Nat.ofDigitChars_cons, hc,
        Option.getD_some, Nat.mul_comm]
  have hdigits : ∀ c ∈ Nat.toDigits 10 n, c.isDigit = true := fun c =>
    Nat.isDigit_of_mem_toDigits (by decide) (by decide)
  exact (hstep _ 0 hdigits).trans Nat.ofDigitChars_ten_toDigits

/-- A number in decimal notation is read back. -/
theorem scan_decimal (n : Nat) :
    ∃ d ds, (toString n).toList = d :: ds ∧ Text.isDigit d = true ∧ scan d ds = .ok ⟨.integer n, d :: ds, []⟩ := by
  have hdigits : ∀ c ∈ Nat.toDigits 10 n, c.isDigit = true := fun c =>
    Nat.isDigit_of_mem_toDigits (by decide) (by decide)
  have hvalue := numberOf_toDigits n
  rw [Nat.toString_eq_repr, Nat.toList_repr]
  rcases hds : Nat.toDigits 10 n with _ | ⟨d, ds⟩
  · exact absurd hds Nat.toDigits_ne_nil
  · rw [hds] at hdigits hvalue
    obtain ⟨hstart, hdigit, -, -⟩ := digit_cases (hdigits d (List.mem_cons_self ..))
    have hunmarked : Unmarked d ds := unmarked_of_avoids fun c hc =>
      (digit_cases (hdigits c (List.mem_cons_of_mem _ (List.mem_of_mem_head? hc)))).2.2.1
    have hof : ∀ c ∈ d :: ds, isDigitOf .decimal c = true := by
      intro c hc
      have hc' : Numeral.digit? Radix.decimal.base c = some (c.toNat - '0'.toNat) :=
        (digit_cases (hdigits c hc)).2.2.2
      rw [isDigitOf, hc']
      rfl
    obtain ⟨htake, hdrop⟩ := takeWhile_append_of_avoids hof (avoids_nil _)
    rw [List.append_nil] at htake hdrop
    refine ⟨d, ds, rfl, hdigit, Scans.scan_eq (.number hstart hdigit ?_)⟩
    rw [scanNumber_of_unmarked hunmarked, scanDigits_eq_ok, htake, hdrop, hvalue]
    exact ⟨List.cons_ne_nil _ _, avoids_nil _, rfl⟩

/-! ### Literals -/

private theorem scanText_written (c : Char) (cs : List Char) :
    scanText (escaped ['\x5c', '\x22'] c ++ cs) = grow c (escaped ['\x5c', '\x22'] c) (scanText cs) := by
  by_cases hfeed : c = '\n'
  · rw [hfeed]
    exact scanText_escaped (by decide) cs
  · by_cases hmark : c ∈ ['\x5c', '\x22']
    · have hback : ['\x5c', '\x22'].map unescape = ['\x5c', '\x22'].map id := by decide
      have hscan := scanText_escaped hfeed cs
      rw [List.map_inj_left.1 hback c hmark] at hscan
      rw [escaped, if_neg hfeed, if_pos hmark]
      exact hscan
    · have hne : c ≠ '\x5c' ∧ c ≠ '\x22' := by simpa using hmark
      rw [escaped, if_neg hfeed, if_neg hmark]
      exact scanText_plain hne.2 hfeed hne.1 cs

private theorem scanText_print (s : List Char) :
    scanText (s.flatMap (escaped ['\x5c', '\x22']) ++ ['\x22']) =
      .ok (s, s.flatMap (escaped ['\x5c', '\x22']) ++ ['\x22'], []) := by
  induction s with
  | nil => rfl
  | cons c s ih =>
    rw [List.flatMap_cons, List.append_assoc, scanText_written, ih]
    rfl

private theorem scanCharacter_print (c : Char) :
    scanCharacter (escaped ['\x5c'] c ++ ['\x27']) = .ok ⟨.char c, (Lexeme.char c).print, []⟩ := by
  by_cases hfeed : c = '\n'
  · rw [hfeed]
    rfl
  · by_cases hslash : c = '\x5c'
    · rw [hslash]
      rfl
    · rw [Lexeme.print_char, escaped, if_neg hfeed, if_neg (by simpa using hslash)]
      exact scanCharacter_plain hfeed hslash _

/-! ### Words and signs -/

/-- A word that is no label is written as it is. -/
private theorem print_classify (word : String) :
    (classify word).print = word.toList ∧ (classify word).isLiteral = false := by
  unfold classify
  split
  · next m hm =>
    have hname : m.name = word := by simpa using List.find?_some hm
    rw [← hname]
    exact ⟨rfl, rfl⟩
  · next r _ hr =>
    have hname : r.name = word := by simpa using List.find?_some hr
    rw [← hname]
    exact ⟨rfl, rfl⟩
  · next d _ _ hd =>
    have hname : d.name = word := by simpa using List.find?_some hd
    rw [← hname]
    exact ⟨rfl, rfl⟩
  · exact ⟨rfl, rfl⟩

theorem print_scanWord (cs : List Char) :
    (scanWord cs).lexeme.print = fold (scanWord cs).text ∧ (scanWord cs).lexeme.isLiteral = false := by
  by_cases hcolon : ∃ rest, cs.dropWhile isWordChar = ':' :: rest
  · obtain ⟨rest, hd⟩ := hcolon
    rw [scanWord_of_colon hd, Lexeme.print_label, String.toList_ofList, fold_append]
    exact ⟨rfl, rfl⟩
  · have hd : Avoids (· = ':') (cs.dropWhile isWordChar) := avoids_eq fun rest h => hcolon ⟨rest, h⟩
    obtain ⟨hprint, hliteral⟩ := print_classify (String.ofList ((cs.takeWhile isWordChar).map Char.toLower))
    rw [scanWord_of_avoids hd, hprint, String.toList_ofList]
    exact ⟨rfl, hliteral⟩

private theorem print_sign {c : Char} {l : Lexeme} (h : sign? c = some l) :
    l.print = fold [c] ∧ l.isLiteral = false := by
  unfold sign? at h
  split at h <;> cases h <;> exact ⟨rfl, rfl⟩

private theorem print_double {c : Char} {l : Lexeme} (h : double? c = some l) :
    l.print = fold [c, c] ∧ l.isLiteral = false := by
  unfold double? at h
  split at h <;> cases h <;> exact ⟨rfl, rfl⟩

/-- Apart from literals a lexeme is read back from its own characters in small letters. -/
private theorem scan_fold_text {c : Char} {cs : List Char} {s : Scanned} (h : scan c cs = .ok s)
    (hs : s.lexeme.isLiteral = false) :
    ∃ d ds, fold s.text = d :: ds ∧ scan d ds = .ok ⟨s.lexeme, d :: ds, []⟩ := by
  obtain ⟨text, htext, halone⟩ := scan_alone h
  have hcase : fold (c.toLower :: fold text) = fold (c :: text) := fold_fold (c :: text)
  obtain ⟨s', hs', houtline, -, hrest⟩ := exists_of_scan_ok hcase halone
  have hlexeme : s'.lexeme = s.lexeme := Lexeme.eq_of_outline houtline hs
  have hend : s'.rest = [] := fold_eq_nil.1 hrest
  have htext' : s'.text = c.toLower :: fold text := by
    have := (scan_text_append_rest hs').1
    rwa [hend, List.append_nil] at this
  refine ⟨c.toLower, fold text, by rw [htext, fold_cons], ?_⟩
  rw [hs', ← hlexeme, ← htext', ← hend]

/-- Every lexeme is read back from what is written for it. -/
theorem scan_print {c : Char} {cs : List Char} {s : Scanned} (h : scan c cs = .ok s) :
    ∃ d ds, s.lexeme.print = d :: ds ∧ scan d ds = .ok ⟨s.lexeme, d :: ds, []⟩ := by
  have hspelled : s.lexeme.print = fold s.text ∧ s.lexeme.isLiteral = false →
      ∃ d ds, s.lexeme.print = d :: ds ∧ scan d ds = .ok ⟨s.lexeme, d :: ds, []⟩ := by
    rintro ⟨hprint, hliteral⟩
    rw [hprint]
    exact scan_fold_text h hliteral
  have hnumber : (∃ n, s.lexeme = .integer n) →
      ∃ d ds, s.lexeme.print = d :: ds ∧ scan d ds = .ok ⟨s.lexeme, d :: ds, []⟩ := by
    rintro ⟨n, hn⟩
    rw [hn]
    obtain ⟨d, ds, hprint, -, hscan⟩ := scan_decimal n
    exact ⟨d, ds, hprint, hscan⟩
  cases Scans.of_scan h with
  | word hc => exact hspelled (print_scanWord _)
  | number hc hd hs =>
    unfold scanNumber at hs
    split at hs <;> exact hnumber (integer_of_scanDigits hs)
  | marked hm hs => exact hnumber (integer_of_scanDigits hs)
  | @text cs meant taken rest htaken =>
    refine ⟨_, _, rfl, ?_⟩
    have hscan := Scans.scan_eq (.text (scanText_print meant))
    rwa [String.toList_ofList]
  | character hs =>
    obtain ⟨e, he⟩ := char_of_scanCharacter hs
    rw [he]
    exact ⟨_, _, rfl, Scans.scan_eq (.character (scanCharacter_print e))⟩
  | double hd rest => exact hspelled (print_double hd)
  | sign hs hd => exact hspelled (print_sign hs)

/-! ### Sources -/

private theorem Lexes.ne_nil {start : Bool} {cs : List Char} {ls : List Lexeme} (h : Lexes start cs ls) : ls ≠ [] := by
  induction h with
  | skip _ _ ih => exact ih
  | comment _ _ ih => exact ih
  | eof => exact List.cons_ne_nil _ _
  | stop => exact List.cons_ne_nil _ _
  | next => exact List.cons_ne_nil _ _

/-- The first of several lexemes is read back with a blank behind it. -/
private theorem scan_printAll {c : Char} {cs : List Char} {s : Scanned} (h : scan c cs = .ok s) {ls : List Lexeme}
    (hls : ls ≠ []) : ∃ d ds, printAll (s.lexeme :: ls) = d :: ds ∧
      scan d ds = .ok ⟨s.lexeme, s.lexeme.print, ' ' :: printAll ls⟩ := by
  obtain ⟨d, ds, hprint, halone⟩ := scan_print h
  have hblank : Replaces [] (' ' :: printAll ls) := .inr (by rintro c ⟨⟩; rfl)
  obtain ⟨text, htext, hscan⟩ := scan_append halone hblank
  cases htext
  refine ⟨d, ds ++ ' ' :: printAll ls, ?_, by rw [hscan, hprint]⟩
  rw [printAll, List.map_cons, List.intercalate_cons_of_ne_nil (by simpa using hls), hprint]
  simp [printAll]

/-- The lexemes of a text are those of what is written for them. -/
theorem Lexes.print {start : Bool} {cs : List Char} {ls : List Lexeme} (h : Lexes start cs ls) :
    Lexes start (printAll ls) ls := by
  induction h with
  | eof start => exact .eof start
  | skip _ _ ih => exact ih
  | comment _ _ ih => exact ih
  | @stop c cs s hscan hs =>
    obtain ⟨d, ds, hprint, hscan'⟩ := scan_printAll hscan (List.cons_ne_nil .eof [])
    rw [hs] at hprint
    rw [hprint]
    exact .stop hscan' hs
  | @next start c cs s ls hscan hs h ih =>
    obtain ⟨d, ds, hprint, hscan'⟩ := scan_printAll hscan h.ne_nil
    have hblank : Lexes (startsAfter start s.lexeme) (' ' :: printAll ls) ls := .skip (by decide) ih
    rw [hprint]
    exact .next (s := ⟨s.lexeme, s.lexeme.print, _⟩) hscan' hs hblank

end Lexer

open Lexer

/-- The tokens of a source are read back from what is written for them, one blank between any two. -/
theorem tokenize_print {source file : String} {tokens : List Token} (h : tokenize source file = .ok tokens) :
    ∃ tokens', tokenize (String.ofList (printAll (tokens.map Token.lexeme))) file = .ok tokens' ∧
      tokens'.map Token.lexeme = tokens.map Token.lexeme := by
  obtain ⟨ls, hls, htokens⟩ := lexes_of_tokensFrom (tokensFrom_of_tokenize h)
  have hlexemes : ∀ {ts : List Token}, ts.map erase = bare file 0 ls → ts.map Token.lexeme = ls := by
    intro ts hts
    rw [← map_lexeme_bare file 0 ls, ← hts, List.map_map]
    rfl
  obtain ⟨tokens', ht, htokens'⟩ := tokensFrom_of_lexes hls.print file 0 .start
  refine ⟨tokens', ?_, by rw [hlexemes htokens', hlexemes htokens]⟩
  rw [hlexemes htokens, tokenize, String.toList_ofList, ht]

theorem tokenize_print_mixed :
    ∃ tokens tokens',
      tokenize "GO:lda\t$fF,--X ;\n FCC \"a\\t\\\"\"\ncmpa#'\\n\n end\n?" "main.asm" = .ok tokens ∧
      String.ofList (printAll (tokens.map Token.lexeme)) =
        "go: lda 255 , -- x \n fcc \"a\t\\\"\" \n cmpa # '\\n' \n end " ∧
      tokenize "go: lda 255 , -- x \n fcc \"a\t\\\"\" \n cmpa # '\\n' \n end " "main.asm" = .ok tokens' ∧
      tokens'.map Token.lexeme = tokens.map Token.lexeme := by
  let source := "GO:lda\t$fF,--X ;\n FCC \"a\\t\\\"\"\ncmpa#'\\n\n end\n?"
  let tokens := (tokenize source "main.asm").toOption.getD []
  have h : tokenize source "main.asm" = .ok tokens := tokenize_eq_ok (by decide +kernel)
  have hprint : String.ofList (printAll (tokens.map Token.lexeme)) =
      "go: lda 255 , -- x \n fcc \"a\t\\\"\" \n cmpa # '\\n' \n end " := by decide +kernel
  obtain ⟨tokens', h', hlexemes⟩ := tokenize_print h
  rw [hprint] at h'
  exact ⟨tokens, tokens', h, hprint, h', hlexemes⟩

end Mc6809
