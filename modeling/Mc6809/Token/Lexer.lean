import Mc6809.Numeral
import Mc6809.Problem
import Mc6809.Text.Lines

/-!
# Reading tokens

`scan` reads one lexeme off the front of a text and says which characters it took; `tokenize` walks a whole
source. Blanks and comments between lexemes are skipped, and an `end` directive at the start of a statement ends
the walk. The walk comes to an end because a lexeme leaves the rest as it was (`scan_text_append_rest`) and
takes at least one character of it (`scan_rest_length`).
-/

namespace Mc6809

/-- A line and a column, both counted from one. -/
structure Position where
  line : Nat
  column : Nat
  deriving DecidableEq, Repr

namespace Position

def start : Position := ⟨1, 1⟩

/-- The position after a character. -/
def step (p : Position) (c : Char) : Position :=
  if c = '\n' then ⟨p.line + 1, 1⟩ else ⟨p.line, p.column + 1⟩

/-- The position after a stretch of text. -/
def advance (p : Position) (cs : List Char) : Position :=
  cs.foldl step p

end Position

namespace Lexer

def isLetter (c : Char) : Bool :=
  ('a' ≤ c && c ≤ 'z') || ('A' ≤ c && c ≤ 'Z')

def isDecimal (c : Char) : Bool :=
  '0' ≤ c && c ≤ '9'

/-- The characters that start a word. -/
def isWordStart (c : Char) : Bool :=
  isLetter c || c = '_' || c = '.'

/-- The characters of a word. -/
def isWordChar (c : Char) : Bool :=
  isWordStart c || isDecimal c

/-- The blanks between lexemes. -/
def isSkipped (c : Char) : Bool :=
  c = ' ' || c = '\t' || c = '\r'

/-- The characters that start a comment. -/
def opensComment (c : Char) : Bool :=
  c = ';' || c = '*'

/-- A lexeme read off the front of a text: the characters it took and the text after them. -/
structure Scanned where
  lexeme : Lexeme
  text : List Char
  rest : List Char

/-- A complaint about the front of a text, and the characters that stand before the place complained about. -/
structure Refusal where
  problem : Problem
  text : List Char

abbrev Scan := Except Refusal Scanned

/-- What a word stands for when it is not a label. -/
def classify (word : String) : Lexeme :=
  match Mnemonic.ofName? word, Register.ofName? word, Directive.ofName? word with
  | some m, _, _ => .opcode m
  | none, some r, _ => .register r
  | none, none, some d => .directive d
  | none, none, none => .identifier word

/-- A word in lower case, and a label if a colon follows it directly. -/
def scanWord (cs : List Char) : Scanned :=
  let word := cs.takeWhile isWordChar
  let name := String.ofList (word.map Char.toLower)
  match cs.dropWhile isWordChar with
  | ':' :: rest => ⟨.label name, word ++ [':'], rest⟩
  | rest => ⟨classify name, word, rest⟩

/-- Whether a character is a digit of a notation. -/
def isDigitOf (radix : Radix) (c : Char) : Bool :=
  (Numeral.digit? radix.base c).isSome

/-- The number that digits of a notation stand for. -/
def numberOf (radix : Radix) (ds : List Char) : Nat :=
  ds.foldl (fun n c => n * radix.base + (Numeral.digit? radix.base c).getD 0) 0

/-- The digits of a number after its mark. A word character must not follow them. -/
def scanDigits (radix : Radix) (mark cs : List Char) : Scan :=
  let ds := cs.takeWhile (isDigitOf radix)
  if ds = [] then .error ⟨.missingDigits radix, mark⟩
  else match cs.dropWhile (isDigitOf radix) with
    | [] => .ok ⟨.integer (numberOf radix ds), mark ++ ds, []⟩
    | c :: rest =>
      if isWordChar c then .error ⟨.wrongDigit radix c, mark ++ ds⟩
      else .ok ⟨.integer (numberOf radix ds), mark ++ ds, c :: rest⟩

/-- A number that starts with a digit. After `0b` a binary digit has to follow for the number to be binary. -/
def scanNumber : List Char → Scan
  | '0' :: 'x' :: cs => scanDigits .hexadecimal ['0', 'x'] cs
  | '0' :: 'X' :: cs => scanDigits .hexadecimal ['0', 'X'] cs
  | '0' :: 'b' :: '0' :: cs => scanDigits .binary ['0', 'b'] ('0' :: cs)
  | '0' :: 'b' :: '1' :: cs => scanDigits .binary ['0', 'b'] ('1' :: cs)
  | '0' :: 'B' :: '0' :: cs => scanDigits .binary ['0', 'B'] ('0' :: cs)
  | '0' :: 'B' :: '1' :: cs => scanDigits .binary ['0', 'B'] ('1' :: cs)
  | cs => scanDigits .decimal [] cs

/-- The character that stands behind a backslash. -/
def unescape : Char → Char
  | 'n' => '\n'
  | 'r' => '\r'
  | 't' => '\t'
  | '0' => '\x00'
  | c => c

/-- The contents of a text literal after its opening quote: the characters meant, those taken, and the rest. -/
def scanText : List Char → Except Refusal (List Char × List Char × List Char)
  | [] => .error ⟨.openText, []⟩
  | '\x22' :: cs => .ok ([], ['\x22'], cs)
  | '\n' :: _ => .error ⟨.openText, []⟩
  | ['\x5c'] => .error ⟨.openEscape, ['\x5c']⟩
  | '\x5c' :: e :: cs =>
    if e = '\n' then .error ⟨.openEscape, ['\x5c']⟩
    else match scanText cs with
      | .ok (meant, taken, rest) => .ok (unescape e :: meant, '\x5c' :: e :: taken, rest)
      | .error r => .error { r with text := '\x5c' :: e :: r.text }
  | c :: cs =>
    match scanText cs with
    | .ok (meant, taken, rest) => .ok (c :: meant, c :: taken, rest)
    | .error r => .error { r with text := c :: r.text }

/-- A character literal up to its optional closing quote. -/
def closeCharacter (c : Char) (taken : List Char) : List Char → Scanned
  | '\x27' :: cs => ⟨.char c, taken ++ ['\x27'], cs⟩
  | cs => ⟨.char c, taken, cs⟩

/-- A character literal after its opening quote. -/
def scanCharacter : List Char → Scan
  | [] => .error ⟨.openCharacter, ['\x27']⟩
  | '\n' :: _ => .error ⟨.openCharacter, ['\x27']⟩
  | ['\x5c'] => .error ⟨.openEscape, ['\x27', '\x5c']⟩
  | '\x5c' :: e :: cs =>
    if e = '\n' then .error ⟨.openEscape, ['\x27', '\x5c']⟩
    else .ok (closeCharacter (unescape e) ['\x27', '\x5c', e] cs)
  | c :: cs => .ok (closeCharacter c ['\x27', c] cs)

/-- The lexemes of a single character. -/
def sign? : Char → Option Lexeme
  | ',' => some .comma
  | '=' => some .equal
  | '<' => some .less
  | '>' => some .greater
  | '#' => some .hash
  | '[' => some .bracket
  | ']' => some .closing
  | '\n' => some .newline
  | '+' => some .inc
  | '-' => some .dec
  | _ => none

/-- Read the lexeme that starts with `c` and goes on with `cs`. -/
def scan (c : Char) (cs : List Char) : Scan :=
  if isWordStart c then .ok (scanWord (c :: cs))
  else if Text.isDigit c then scanNumber (c :: cs)
  else match c, cs with
    | '$', cs => scanDigits .hexadecimal ['$'] cs
    | '%', cs => scanDigits .binary ['%'] cs
    | '\x22', cs =>
      match scanText cs with
      | .ok (meant, taken, rest) => .ok ⟨.text (String.ofList meant), '\x22' :: taken, rest⟩
      | .error r => .error { r with text := '\x22' :: r.text }
    | '\x27', cs => scanCharacter cs
    | '+', '+' :: rest => .ok ⟨.inc2, ['+', '+'], rest⟩
    | '-', '-' :: rest => .ok ⟨.dec2, ['-', '-'], rest⟩
    | c, cs =>
      match sign? c with
      | some l => .ok ⟨l, [c], cs⟩
      | none => .error ⟨.unexpectedCharacter c, [c]⟩

private theorem scanDigits_text_append_rest {radix : Radix} {mark cs : List Char} {s : Scanned}
    (h : scanDigits radix mark cs = .ok s) : s.text ++ s.rest = mark ++ cs ∧ s.text ≠ [] := by
  have hsplit := List.takeWhile_append_dropWhile (p := isDigitOf radix) (l := cs)
  unfold scanDigits at h
  dsimp only at h
  split at h
  · cases h
  · next hne =>
    split at h
    · next hd =>
      cases h
      rw [hd] at hsplit
      exact ⟨by simpa using hsplit, by simp [hne]⟩
    · next c rest hd =>
      split at h
      · cases h
      · cases h
        rw [hd] at hsplit
        exact ⟨by simp [hsplit], by simp [hne]⟩

private theorem scanNumber_text_append_rest {cs : List Char} {s : Scanned}
    (h : scanNumber cs = .ok s) : s.text ++ s.rest = cs ∧ s.text ≠ [] := by
  unfold scanNumber at h
  split at h <;> simpa using scanDigits_text_append_rest h

private theorem scanWord_text_append_rest {c : Char} {cs : List Char} (hc : isWordStart c = true) :
    (scanWord (c :: cs)).text ++ (scanWord (c :: cs)).rest = c :: cs ∧ (scanWord (c :: cs)).text ≠ [] := by
  have hsplit := List.takeWhile_append_dropWhile (p := isWordChar) (l := c :: cs)
  have hne : (c :: cs).takeWhile isWordChar ≠ [] := by simp [List.takeWhile, isWordChar, hc]
  unfold scanWord
  dsimp only
  split
  · next rest hd =>
    rw [hd] at hsplit
    exact ⟨by simp [hsplit], by simp⟩
  · exact ⟨hsplit, hne⟩

private theorem scanText_append {cs meant taken rest : List Char}
    (h : scanText cs = .ok (meant, taken, rest)) : taken ++ rest = cs := by
  fun_induction scanText cs generalizing meant taken rest with
  | case1 => cases h
  | case2 cs => cases h; rfl
  | case3 => cases h
  | case4 => cases h
  | case5 => cases h
  | case6 e cs _ meant' taken' rest' heq ih => cases h; simp [ih heq]
  | case7 => cases h
  | case8 c cs _ _ _ _ meant' taken' rest' heq ih => cases h; simp [ih heq]
  | case9 => cases h

private theorem closeCharacter_append (c : Char) (taken cs : List Char) :
    (closeCharacter c taken cs).text ++ (closeCharacter c taken cs).rest = taken ++ cs ∧
      (taken ≠ [] → (closeCharacter c taken cs).text ≠ []) := by
  unfold closeCharacter
  split <;> simp

private theorem scanCharacter_text_append_rest {cs : List Char} {s : Scanned}
    (h : scanCharacter cs = .ok s) : s.text ++ s.rest = '\x27' :: cs ∧ s.text ≠ [] := by
  unfold scanCharacter at h
  split at h
  · cases h
  · cases h
  · cases h
  · split at h
    · cases h
    · cases h
      exact ⟨by simp [closeCharacter_append], (closeCharacter_append ..).2 (by simp)⟩
  · cases h
    exact ⟨by simp [closeCharacter_append], (closeCharacter_append ..).2 (by simp)⟩

/-- A lexeme takes characters off the front, at least one, and leaves the others. -/
theorem scan_text_append_rest {c : Char} {cs : List Char} {s : Scanned} (h : scan c cs = .ok s) :
    s.text ++ s.rest = c :: cs ∧ s.text ≠ [] := by
  unfold scan at h
  split at h
  · next hc =>
    cases h
    exact scanWord_text_append_rest hc
  · split at h
    · exact scanNumber_text_append_rest h
    · split at h
      · simpa using scanDigits_text_append_rest h
      · simpa using scanDigits_text_append_rest h
      · split at h
        · next heq =>
          cases h
          exact ⟨by simp [scanText_append heq], by simp⟩
        · cases h
      · exact scanCharacter_text_append_rest h
      · cases h
        simp
      · cases h
        simp
      · split at h
        · cases h
          simp
        · cases h

theorem scan_rest_length {c : Char} {cs : List Char} {s : Scanned} (h : scan c cs = .ok s) :
    s.rest.length < cs.length + 1 := by
  obtain ⟨hsplit, hne⟩ := scan_text_append_rest h
  have hlen := congrArg List.length hsplit
  have hpos := List.length_pos_iff.mpr hne
  simp only [List.length_append, List.length_cons] at hlen
  omega

/-- Whether the next lexeme still starts a statement, after one that did or did not. Labels leave it as it is. -/
def startsAfter (start : Bool) : Lexeme → Bool
  | .newline => true
  | .label _ => start
  | _ => false

/-- The tokens of a text from a position on. `start` tells whether the next lexeme starts a statement, and `index`
how many tokens came before. -/
def tokensFrom (file : String) (start : Bool) (index : Nat) (p : Position) (cs : List Char) :
    Except (Problem × Position) (List Token) :=
  match cs with
  | [] => .ok [⟨.eof, index, file, p.line, p.column⟩]
  | c :: cs =>
    if isSkipped c then tokensFrom file start index (p.step c) cs
    else if opensComment c then
      tokensFrom file start index (p.advance (c :: cs.takeWhile (· ≠ '\n'))) (cs.dropWhile (· ≠ '\n'))
    else
      match _h : scan c cs with
      | .error r => .error (r.problem, p.advance r.text)
      | .ok s =>
        let token : Token := ⟨s.lexeme, index, file, p.line, p.column⟩
        let q := p.advance s.text
        if start && s.lexeme = .directive .stop then
          .ok [token, ⟨.eof, index + 1, file, q.line, q.column⟩]
        else
          (tokensFrom file (startsAfter start s.lexeme) (index + 1) q s.rest).map (token :: ·)
termination_by cs.length
decreasing_by
  · simp
  · have := (List.dropWhile_suffix (l := cs) (· ≠ '\n')).length_le
    simp only [List.length_cons]
    omega
  · have := scan_rest_length _h
    simp only [List.length_cons]
    omega

end Lexer

/-- The tokens of a source text, the end mark last, or the diagnostic for the first place that is no lexeme. The
diagnostic quotes the line between the line feeds around that place. -/
def tokenize (source file : String) : Except Diagnostic (List Token) :=
  match Lexer.tokensFrom file true 0 .start source.toList with
  | .ok tokens => .ok tokens
  | .error (problem, p) =>
    .error {
      diagnosis := problem.diagnosis
      location := some ⟨file, p.line, p.column⟩
      sourceLine := (Text.feedLines source.toList)[p.line - 1]?.map String.ofList }

end Mc6809
