import Mc6809.Proofs.Lexing.Marks
import Mc6809.Text.Hex

/-!
# Numbers inside and outside of sources

Options, the environment and definitions give numbers as text of their own, which `Numeral.parse` reads.  It accepts
more than a source does, but what is a number in a source (`Spells`) is the same number for it, with or without a sign
and blanks around it (`Spells.parse_eq`).  The digits in which listings and symbol files show a number spell that
number (`spells_paddedHex`).
-/

namespace Mc6809

/-! ### Blanks around a text -/

namespace Text

open Lexer (Avoids)

variable {p : Char → Bool} {before cs behind : List Char}

/-- A text that neither starts nor ends with a character of some class. -/
structure Bare (p : Char → Bool) (cs : List Char) : Prop where
  nonempty : cs ≠ []
  first : Avoids p cs
  last : Avoids p cs.reverse

private theorem trimWhile_append (hb : ∀ c ∈ before, p c = true) (h : Bare p cs) (hb' : ∀ c ∈ behind, p c = true) :
    trimWhile p (before ++ cs ++ behind) = cs := by
  have hfirst : Avoids p (cs ++ behind) := by
    obtain ⟨c, ds, rfl⟩ := List.exists_cons_of_ne_nil h.nonempty
    exact Lexer.avoids_cons.2 (Lexer.avoids_cons.1 h.first)
  have hbehind : ∀ c ∈ behind.reverse, p c = true := fun c hc => hb' c (List.mem_reverse.1 hc)
  rw [trimWhile, List.append_assoc, (Lexer.takeWhile_append_of_avoids hb hfirst).2, List.reverse_append,
    (Lexer.takeWhile_append_of_avoids hbehind h.last).2, List.reverse_reverse]

theorem trimWhile_of_bare (h : Bare p cs) : trimWhile p cs = cs := by
  have htrim := trimWhile_append (List.forall_mem_nil _) h (List.forall_mem_nil _)
  rwa [List.nil_append, List.append_nil] at htrim

end Text

/-! ### Digits -/

namespace Numeral

variable {base : Nat} {c : Char}

/-- Digits are decimal digits and letters of ASCII. -/
private theorem toNat_of_digit? (h : (digit? base c).isSome = true) :
    0x30 ≤ c.toNat ∧ c.toNat ≤ 0x39 ∨ 0x41 ≤ c.toNat ∧ c.toNat ≤ 0x5A ∨ 0x61 ≤ c.toNat ∧ c.toNat ≤ 0x7A := by
  have hvalue : charValue? c ≠ none := by
    intro hnone
    rw [digit?, hnone] at h
    cases h
  unfold charValue? at hvalue
  dsimp only at hvalue
  split at hvalue
  · next hc => exact .inl hc
  · split at hvalue
    · next hc => exact .inr (.inl hc)
    · split at hvalue
      · next hc => exact .inr (.inr hc)
      · exact absurd rfl hvalue

private theorem foldScript_of_digit? (h : (digit? base c).isSome = true) : foldScript c = c := by
  have := toNat_of_digit? h
  rw [foldScript, if_pos (by omega)]

theorem isBlank_of_digit? (h : (digit? base c).isSome = true) : Text.isBlank c = false := by
  have := toNat_of_digit? h
  simp only [Text.isBlank, Bool.or_eq_false_iff, Bool.and_eq_false_iff, decide_eq_false_iff_not]
  omega

private theorem isSpace_of_digit? (h : (digit? base c).isSome = true) : isSpace c = false := by
  have hc := toNat_of_digit? h
  have hblank : c ≠ ' ' := by
    rintro rfl
    revert hc
    decide
  simp only [isSpace, hblank, Bool.or_eq_false_iff, Bool.and_eq_false_iff, decide_eq_false_iff_not, not_false_eq_true,
    and_true]
  omega

/-- The characters of numbers that are no digits in any base. -/
private theorem ne_of_digit? (h : (digit? base c).isSome = true) : ∀ d ∈ ['_', '-', '+', '$', '%'], c ≠ d := by
  have hc := toNat_of_digit? h
  have hall : (['_', '-', '+', '$', '%'].all fun d => !((0x30 ≤ d.toNat && d.toNat ≤ 0x39) ||
      (0x41 ≤ d.toNat && d.toNat ≤ 0x5A) || (0x61 ≤ d.toNat && d.toNat ≤ 0x7A))) = true := by decide
  rintro d hd rfl
  have := List.all_eq_true.1 hall c hd
  simp only [Bool.not_eq_true', Bool.or_eq_false_iff, Bool.and_eq_false_iff, decide_eq_false_iff_not] at this
  omega

/-! ### Runs of digits -/

open Lexer

variable {radix : Radix} {ds : List Char}

private theorem digitsFrom?_of_digits (h : ∀ c ∈ ds, isDigitOf radix c = true) (acc : Nat) :
    digitsFrom? radix.base acc ds =
      some (ds.foldl (fun n c => n * radix.base + (digit? radix.base c).getD 0) acc) := by
  induction ds generalizing acc with
  | nil => rfl
  | cons c ds ih =>
    obtain ⟨hc, hds⟩ := List.forall_mem_cons.1 h
    have hunderscore : c ≠ '_' := ne_of_digit? hc _ (by simp)
    obtain ⟨d, hd⟩ := Option.isSome_iff_exists.1 hc
    rw [digitsFrom?, hd, Option.bind_some, ih hds, List.foldl_cons, hd, Option.getD_some]
    · exact fun hc' _ => hunderscore hc'
    · exact fun _ _ hc' _ => hunderscore hc'

private theorem digits?_of_digits (hne : ds ≠ []) (h : ∀ c ∈ ds, isDigitOf radix c = true) :
    digits? radix.base ds = some (numberOf radix ds) := by
  obtain ⟨c, cs, rfl⟩ := List.exists_cons_of_ne_nil hne
  obtain ⟨hc, hcs⟩ := List.forall_mem_cons.1 h
  obtain ⟨d, hd⟩ := Option.isSome_iff_exists.1 hc
  rw [digits?, hd, Option.bind_some, digitsFrom?_of_digits hcs, numberOf, List.foldl_cons, hd, Option.getD_some,
    Nat.zero_mul, Nat.zero_add]

/-- The letter that marks a base is no digit in it. -/
private theorem dropMark_of_digits (h : ∀ c ∈ ds, isDigitOf radix c = true) : dropMark radix.base ds = ds := by
  unfold dropMark
  split
  · next c cs =>
    have hc : isDigitOf radix c.toLower = true := by
      rw [caseless_isDigitOf]
      exact h c (by simp)
    split
    · next hmark =>
      exfalso
      cases radix with
      | hexadecimal =>
        rw [← Option.some.inj hmark] at hc
        revert hc
        decide
      | binary =>
        rw [← Option.some.inj hmark] at hc
        revert hc
        decide
      | decimal => cases hmark
    · rfl
  · rfl

theorem bare_of_digits {p : Char → Bool} (hne : ds ≠ []) (h : ∀ c ∈ ds, p c = false) : Text.Bare p ds where
  nonempty := hne
  first := fun c hc => h c (List.mem_of_mem_head? hc)
  last := fun c hc => h c (List.mem_reverse.1 (List.mem_of_mem_head? hc))

private theorem ne_cons_of_digits (h : ∀ c ∈ ds, isDigitOf radix c = true) {d : Char}
    (hd : d ∈ ['_', '-', '+', '$', '%'])
    (rest : List Char) : ds ≠ d :: rest := by
  rintro rfl
  exact ne_of_digit? (h d List.mem_cons_self) d hd rfl

/-- Digits alone are read as the number that they stand for. -/
private theorem integer?_of_digits (hne : ds ≠ []) (h : ∀ c ∈ ds, isDigitOf radix c = true) :
    integer? radix.base ds = some (numberOf radix ds : Int) := by
  have hfold : ds.map foldScript = ds := by
    rw [List.map_congr_left fun c hc => foldScript_of_digit? (h c hc), List.map_id']
  unfold integer?
  rw [hfold, Text.trimWhile_of_bare (bare_of_digits hne fun c hc => isSpace_of_digit? (h c hc))]
  split
  · exact absurd rfl (ne_cons_of_digits h (by simp) _)
  · exact absurd rfl (ne_cons_of_digits h (by simp) _)
  · rw [dropMark_of_digits h, digits?_of_digits hne h]
    rfl

end Numeral

/-! ### Marks and digits -/

open Lexer

/-- What may stand in front of the digits of a notation. -/
def Radix.marks : Radix → List (List Char)
  | hexadecimal => [['$'], ['0', 'x'], ['0', 'X']]
  | binary => [['%'], ['0', 'b'], ['0', 'B']]
  | decimal => [[]]

/-- A number as it is spelled: the mark of a notation and digits. -/
inductive Spells : List Char → Nat → Prop
  | intro {radix : Radix} {mark ds : List Char} (hm : mark ∈ radix.marks) (hne : ds ≠ [])
      (hds : ∀ c ∈ ds, isDigitOf radix c = true) : Spells (mark ++ ds) (numberOf radix ds)

/-- What is read as a number in a source is a mark and digits. -/
private theorem spells_of_scan {c : Char} {cs : List Char} {s : Scanned} {n : Nat} (h : scan c cs = .ok s)
    (hn : s.lexeme = .integer n) : Spells s.text n := by
  have hdigits : ∀ {radix : Radix} {mark ds : List Char}, mark ∈ radix.marks → scanDigits radix mark ds = .ok s →
      Spells s.text n := by
    intro radix mark ds hm hs
    obtain ⟨hne, -, rfl⟩ := scanDigits_eq_ok.1 hs
    cases hn
    exact .intro hm hne fun c => List.mem_takeWhile_imp
  cases Scans.of_scan h with
  | word =>
    revert hn
    unfold scanWord
    dsimp only
    split
    · simp
    · unfold classify
      split <;> simp
  | number _ _ hs =>
    unfold scanNumber at hs
    split at hs <;> exact hdigits (by decide) hs
  | marked hm hs =>
    refine hdigits ?_ hs
    unfold mark? at hm
    split at hm <;> cases hm <;> decide
  | text => cases hn
  | character hs =>
    obtain ⟨d, hd⟩ := char_of_scanCharacter hs
    cases hd.symm.trans hn
  | double hd =>
    cases hn
    unfold double? at hd
    split at hd <;> cases hd
  | sign hs =>
    cases hn
    unfold sign? at hs
    split at hs <;> cases hs

/-- The notation of a number is told from its mark, and that of digits alone is decimal. -/
private theorem radixOf_append {radix : Radix} {mark ds : List Char} (hm : mark ∈ radix.marks)
    (hds : ∀ c ∈ ds, isDigitOf radix c = true) : Numeral.radixOf (mark ++ ds) = (radix.base, ds) := by
  cases radix with
  | hexadecimal =>
    simp only [Radix.marks, List.mem_cons, List.not_mem_nil, or_false] at hm
    rcases hm with rfl | rfl | rfl <;> rfl
  | binary =>
    simp only [Radix.marks, List.mem_cons, List.not_mem_nil, or_false] at hm
    rcases hm with rfl | rfl | rfl <;> rfl
  | decimal =>
    have hletter : ∀ m ∈ ['x', 'X', 'b', 'B'], ∀ rest, ds ≠ '0' :: m :: rest := by
      rintro m hm rest rfl
      have hall : (['x', 'X', 'b', 'B'].all fun m => !isDigitOf .decimal m) = true := by decide
      have hnot := List.all_eq_true.1 hall m hm
      rw [hds m (by simp)] at hnot
      cases hnot
    rw [List.mem_singleton.1 hm, List.nil_append]
    unfold Numeral.radixOf
    split
    · exact absurd rfl (Numeral.ne_cons_of_digits hds (by simp) _)
    · exact absurd rfl (Numeral.ne_cons_of_digits hds (by simp) _)
    · exact absurd rfl (hletter 'x' (by simp) _)
    · exact absurd rfl (hletter 'X' (by simp) _)
    · exact absurd rfl (hletter 'b' (by simp) _)
    · exact absurd rfl (hletter 'B' (by simp) _)
    · rfl

namespace Spells

variable {cs before behind : List Char} {n : Nat}

private theorem magnitude_eq (h : Spells cs n) : Numeral.magnitude cs = .ok (n : Int) := by
  cases h with
  | intro hm hne hds => rw [Numeral.magnitude, radixOf_append hm hds, Numeral.integer?_of_digits hne hds]

/-- There are no blanks and no signs in a number. -/
theorem plain (h : Spells cs n) : cs ≠ [] ∧ ∀ c ∈ cs, Text.isBlank c = false ∧ c ≠ '-' ∧ c ≠ '+' := by
  cases h with
  | @intro radix mark ds hm hne hds =>
    refine ⟨by simp [hne], fun c hc => ?_⟩
    rcases List.mem_append.1 hc with hc | hc
    · have hall : ([Radix.hexadecimal, .binary, .decimal].all fun radix => radix.marks.all fun mark =>
          mark.all fun c => !Text.isBlank c && c ≠ '-' && c ≠ '+') = true := by decide
      have hmarks := List.all_eq_true.1 hall radix (by cases radix <;> simp)
      simpa [and_assoc] using List.all_eq_true.1 (List.all_eq_true.1 hmarks mark hm) c hc
    · have hsign := Numeral.ne_of_digit? (hds c hc)
      exact ⟨Numeral.isBlank_of_digit? (hds c hc), hsign _ (by simp), hsign _ (by simp)⟩

/-- With blanks around it and with a sign or without one, a number is read as it is in a source. -/
theorem parse_eq (h : Spells cs n) (hb : ∀ c ∈ before, Text.isBlank c = true)
    (hb' : ∀ c ∈ behind, Text.isBlank c = true) :
    Numeral.parse (String.ofList (before ++ cs ++ behind)) = .ok (n : Int) ∧
      Numeral.parse (String.ofList (before ++ '+' :: cs ++ behind)) = .ok (n : Int) ∧
      Numeral.parse (String.ofList (before ++ '-' :: cs ++ behind)) = .ok (-n : Int) := by
  obtain ⟨hne, hplain⟩ := h.plain
  have hstrip : ∀ {ds : List Char}, ds ≠ [] → (∀ c ∈ ds, Text.isBlank c = false) →
      Text.strip (String.ofList (before ++ ds ++ behind)).toList = ds := by
    intro ds hne hds
    rw [String.toList_ofList]
    exact Text.trimWhile_append hb (Numeral.bare_of_digits hne hds) hb'
  have hsigned : ∀ {d : Char}, Text.isBlank d = false → ∀ c ∈ d :: cs, Text.isBlank c = false :=
    fun hd => List.forall_mem_cons.2 ⟨hd, fun c hc => (hplain c hc).1⟩
  refine ⟨?_, ?_, ?_⟩
  · unfold Numeral.parse
    rw [hstrip hne fun c hc => (hplain c hc).1]
    split
    · exact absurd rfl (hplain '-' List.mem_cons_self).2.1
    · exact absurd rfl (hplain '+' List.mem_cons_self).2.2
    · exact h.magnitude_eq
  · unfold Numeral.parse
    rw [hstrip (List.cons_ne_nil _ _) (hsigned (by decide))]
    exact h.magnitude_eq
  · unfold Numeral.parse
    rw [hstrip (List.cons_ne_nil _ _) (hsigned (by decide))]
    show (Numeral.magnitude cs).map (- ·) = _
    rw [h.magnitude_eq]
    rfl

end Spells

/-! ### Hexadecimal text -/

private theorem Lexer.numberOf_concat (radix : Radix) (ds : List Char) (d : Char) :
    numberOf radix (ds ++ [d]) = numberOf radix ds * radix.base + (Numeral.digit? radix.base d).getD 0 := by
  simp [numberOf]

namespace Text

/-- The last digit of a number comes off the end. -/
private theorem hexDigits_eq (n : Nat) :
    hexDigits n = (if n < 16 then [] else hexDigits (n / 16)) ++ [(Nat.digitChar (n % 16)).toUpper] := by
  unfold hexDigits
  rw [Nat.toDigits_eq_if (by decide)]
  split
  · next h =>
    rw [Nat.mod_eq_of_lt h]
    rfl
  · simp

private theorem digit?_digitChar {d : Nat} (h : d < 16) :
    Numeral.digit? Radix.hexadecimal.base (Nat.digitChar d).toUpper = some d := by
  have hall : ∀ d < 16, Numeral.digit? Radix.hexadecimal.base (Nat.digitChar d).toUpper = some d := by decide
  exact hall d h

/-- The hexadecimal digits of a number stand for that number. -/
private theorem numberOf_hexDigits (n : Nat) :
    (∀ c ∈ hexDigits n, isDigitOf .hexadecimal c = true) ∧ numberOf .hexadecimal (hexDigits n) = n := by
  induction n using Nat.strongRecOn with
  | ind n ih =>
    have hlast := digit?_digitChar (Nat.mod_lt n (by decide : 16 > 0))
    have hdigit : ∀ c ∈ [(Nat.digitChar (n % 16)).toUpper], isDigitOf .hexadecimal c = true := by
      rw [List.forall_mem_singleton, isDigitOf, hlast]
      rfl
    rw [hexDigits_eq, numberOf_concat, hlast, Option.getD_some, List.forall_mem_append]
    by_cases hn : n < 16
    · rw [if_pos hn, Nat.mod_eq_of_lt hn]
      rw [Nat.mod_eq_of_lt hn] at hdigit
      exact ⟨⟨List.forall_mem_nil _, hdigit⟩, Nat.zero_add n⟩
    · obtain ⟨hdigits, hvalue⟩ := ih (n / 16) (by omega)
      rw [if_neg hn, hvalue]
      exact ⟨⟨hdigits, hdigit⟩, Nat.div_add_mod' n 16⟩

theorem numberOf_paddedHex (width n : Nat) :
    (∀ c ∈ paddedHex width n, isDigitOf .hexadecimal c = true) ∧ numberOf .hexadecimal (paddedHex width n) = n := by
  obtain ⟨hdigits, hvalue⟩ := numberOf_hexDigits n
  have hzeros : ∀ k ds, numberOf .hexadecimal (List.replicate k '0' ++ ds) = numberOf .hexadecimal ds := by
    intro k ds
    induction k with
    | zero => rfl
    | succ k ih =>
      rw [List.replicate_succ, List.cons_append]
      exact ih
  rw [paddedHex, padLeft, hzeros, List.forall_mem_append]
  refine ⟨⟨fun c hc => ?_, hdigits⟩, hvalue⟩
  rw [List.eq_of_mem_replicate hc]
  rfl

theorem length_paddedHex {width n : Nat} (h : (hexDigits n).length ≤ width) : (paddedHex width n).length = width := by
  rw [paddedHex, padLeft, List.length_append, List.length_replicate]
  omega

private theorem length_hexDigits_pos (n : Nat) : 0 < (hexDigits n).length := by
  rw [hexDigits_eq, List.length_append, List.length_singleton]
  omega

theorem paddedHex_ne_nil (width n : Nat) : paddedHex width n ≠ [] := by
  have := length_hexDigits_pos n
  refine List.ne_nil_of_length_pos ?_
  rw [paddedHex, padLeft, List.length_append]
  omega

end Text

/-- A number is spelled by its hexadecimal digits behind their mark. -/
theorem spells_paddedHex (width n : Nat) : Spells ('$' :: Text.paddedHex width n) n := by
  obtain ⟨hdigits, hvalue⟩ := Text.numberOf_paddedHex width n
  have hmark : ['$'] ∈ Radix.hexadecimal.marks := by decide
  have hspells := Spells.intro hmark (Text.paddedHex_ne_nil width n) hdigits
  rwa [hvalue] at hspells

/-! ### Literals -/

/-- A text that is a number of a source and nothing else: its only token starts at the first character, and there is
nothing left behind the lexeme. -/
structure IsLiteral (text : String) (n : Nat) : Prop where
  tokens : ∃ file eof, tokenize text file = .ok [⟨.integer n, 0, file, 1, 1⟩, eof]
  rest : ∀ c cs s, text.toList = c :: cs → scan c cs = .ok s → s.rest = []

/-- The first token of a text that starts with no gap is the lexeme at its front. -/
private theorem Lexer.scan_of_tokensFrom {file : String} {start : Bool} {index : Nat} {p : Position} {c : Char}
    {cs : List Char} {t : Token} {ts : List Token} (h : tokensFrom file start index p (c :: cs) = .ok (t :: ts))
    (hskip : isSkipped c = false) (hcomment : opensComment c = false) :
    ∃ s, scan c cs = .ok s ∧ s.lexeme = t.lexeme := by
  cases hs : scan c cs with
  | error r =>
    rw [tokensFrom_of_refusal hskip hcomment hs] at h
    cases h
  | ok s =>
    refine ⟨s, rfl, ?_⟩
    rw [tokensFrom_of_scan hs] at h
    split at h
    · cases h
      rfl
    · cases hr : tokensFrom file (startsAfter start s.lexeme) (index + 1) (p.advance s.text) s.rest with
      | error e =>
        rw [hr] at h
        cases h
      | ok rest =>
        rw [hr] at h
        cases h
        rfl

/-- The first token of a text that is placed at its start is the lexeme at its front. -/
private theorem Lexer.scan_of_tokenize {text file : String} {l : Lexeme} {eof : Token}
    (h : tokenize text file = .ok [⟨l, 0, file, 1, 1⟩, eof]) :
    ∃ c cs s, text.toList = c :: cs ∧ scan c cs = .ok s ∧ s.lexeme = l := by
  obtain ⟨marks, eof', stop, hmarks, -, -, -, hmarked, -⟩ := marked_of_tokensFrom (tokensFrom_of_tokenize h) [] rfl
  obtain ⟨m, rfl⟩ : ∃ m, marks = [m] := List.length_eq_one_iff.1 (by simpa using (congrArg List.length hmarks).symm)
  have hfits : m.Fits file text.toList := hmarked.fits m (List.mem_singleton_self m)
  have htoken : m.token = ⟨l, 0, file, 1, 1⟩ := (List.cons.inj hmarks).1.symm
  have hplace := Position.start_advance_take text.toList m.start
  rw [← hfits.line, ← hfits.column, htoken] at hplace
  have hstart : text.toList.take m.start = [] := by
    rcases htake : text.toList.take m.start with _ | ⟨d, ds⟩
    · rfl
    · rw [htake] at hplace
      exact absurd hplace (Position.advance_cons_ne .start d ds)
  obtain ⟨c, ds, htext, hscan⟩ := hfits.tight
  obtain ⟨cs, hcs⟩ : ∃ cs, text.toList = c :: cs := by
    rcases List.take_eq_nil_iff.1 hstart with hzero | hnil
    · rw [Mark.text, hzero, List.drop_zero] at htext
      rw [← List.take_append_drop m.stop text.toList, htext]
      exact ⟨_, rfl⟩
    · rw [Mark.text, hnil] at htext
      simp at htext
  have hfrom := tokensFrom_of_tokenize h
  rw [hcs] at hfrom
  obtain ⟨hskip, hcomment⟩ := not_gap_of_scan hscan
  obtain ⟨s, hs, hlexeme⟩ := scan_of_tokensFrom hfrom hskip hcomment
  exact ⟨c, cs, s, hcs, hs, hlexeme⟩

private theorem IsLiteral.spells {text : String} {n : Nat} (h : IsLiteral text n) : Spells text.toList n := by
  obtain ⟨file, eof, htokens⟩ := h.tokens
  obtain ⟨c, cs, s, htext, hscan, hlexeme⟩ := scan_of_tokenize htokens
  have hspells := spells_of_scan hscan hlexeme
  have hall := (scan_text_append_rest hscan).1
  rw [h.rest c cs s htext hscan, List.append_nil] at hall
  rwa [htext, ← hall]

/-- A text that is a number in a source is read as the same number wherever else numbers are given, and as its negative
with a minus sign in front, whatever blanks are around it. -/
theorem literals_mean_the_same_outside_of_sources {text : String} {n : Nat} (h : IsLiteral text n)
    {before behind : List Char} (hb : ∀ c ∈ before, Text.isBlank c = true)
    (hb' : ∀ c ∈ behind, Text.isBlank c = true) :
    Numeral.parse (String.ofList (before ++ text.toList ++ behind)) = .ok (n : Int) ∧
      Numeral.parse (String.ofList (before ++ '+' :: text.toList ++ behind)) = .ok (n : Int) ∧
      Numeral.parse (String.ofList (before ++ '-' :: text.toList ++ behind)) = .ok (-n : Int) :=
  h.spells.parse_eq hb hb'

/-- A hexadecimal number that could be taken for a binary one behind its mark. -/
theorem literals_mean_the_same_outside_of_sources_padded :
    IsLiteral "$0b1" 0xB1 ∧ Numeral.parse "\x1f-$0b1 \u3000" = .ok (-0xB1) := by
  have htext : "$0b1".toList = ['$', '0', 'b', '1'] := by decide
  have hscan : scan '$' ['0', 'b', '1'] = .ok ⟨.integer 0xB1, ['$', '0', 'b', '1'], []⟩ := rfl
  have h : IsLiteral "$0b1" 0xB1 := by
    refine ⟨⟨"", ⟨.eof, 1, "", 1, 5⟩, tokenize_eq_ok (by decide +kernel)⟩, ?_⟩
    intro c cs s hcs hs
    cases htext.symm.trans hcs
    cases hscan.symm.trans hs
    rfl
  have hb : ∀ c ∈ ['\x1f'], Text.isBlank c = true := List.forall_mem_singleton.2 rfl
  have hb' : ∀ c ∈ [' ', '\u3000'], Text.isBlank c = true :=
    List.forall_mem_cons.2 ⟨rfl, List.forall_mem_singleton.2 rfl⟩
  exact ⟨h, (literals_mean_the_same_outside_of_sources h hb hb').2.2⟩

end Mc6809
