import Mc6809.Token.Cursor
import Mc6809.Proofs.FailingLine
import Mc6809.Proofs.Layout
import Mc6809.Proofs.Lexing.Marks

/-!
# The line that is quoted for a token

Tokens are numbered by line feeds, but the text that is quoted for them is cut at every line separator.  The two rules
agree on a line if it is plain: no separators but a carriage return at its end.  A text is a list of lines with a line
feed behind each (`fed`) and a last stretch, and what both rules make of it is known line by line (`lines_fed_append`,
`feedLines_fed_append`).  So the line of a token is quoted as it stands if it and all lines in front of it are plain,
and only then are the lines counted alike.
-/

namespace Mc6809

namespace Text

/-- Lines with a line feed behind each. -/
def fed (ls : List (List Char)) : List Char :=
  ls.flatMap (· ++ ['\n'])

/-- A line without the carriage return at its end, if there is one. -/
def dropReturn (l : List Char) : List Char :=
  if l.getLast? = some '\r' then l.dropLast else l

/-- A line without line separators, a carriage return at its end apart. -/
def Plain (l : List Char) : Prop :=
  ∀ c ∈ dropReturn l, isSeparator c = false

instance (l : List Char) : Decidable (Plain l) :=
  List.decidableBAll (fun c => isSeparator c = false) (dropReturn l)

variable {c : Char} {cs l line back tail : List Char} {ls : List (List Char)}

theorem fed_cons (l : List Char) (ls : List (List Char)) : fed (l :: ls) = l ++ '\n' :: fed ls := by
  simp [fed]

private theorem fed_cons_append (l : List Char) (ls : List (List Char)) (cs : List Char) :
    fed (l :: ls) ++ cs = l ++ '\n' :: (fed ls ++ cs) := by
  rw [fed_cons, List.append_assoc, List.cons_append]

/-- Every text is a list of lines with a line feed behind each, and a last stretch. -/
private theorem exists_fed (cs : List Char) :
    ∃ ls last, cs = fed ls ++ last ∧ (∀ l ∈ ls, '\n' ∉ l) ∧ '\n' ∉ last := by
  induction cs with
  | nil => exact ⟨[], [], rfl, by simp, by simp⟩
  | cons c cs ih =>
    obtain ⟨ls, last, rfl, hls, hlast⟩ := ih
    by_cases hc : c = '\n'
    · exact ⟨[] :: ls, last, by simp [hc, fed_cons], by simpa using hls, hlast⟩
    · cases ls with
      | nil => exact ⟨[], c :: last, rfl, by simp, by simp [hlast, Ne.symm hc]⟩
      | cons l ls =>
        refine ⟨(c :: l) :: ls, last, by simp [fed_cons], ?_, hlast⟩
        simp only [List.forall_mem_cons] at hls ⊢
        exact ⟨by simp [hls.1, Ne.symm hc], hls.2⟩

private theorem count_fed_append (hls : ∀ l ∈ ls, '\n' ∉ l) (hl : '\n' ∉ l) : (fed ls ++ l).count '\n' = ls.length := by
  induction ls with
  | nil => exact List.count_eq_zero.2 hl
  | cons k ls ih =>
    obtain ⟨hk, hls⟩ := List.forall_mem_cons.1 hls
    rw [fed_cons_append, List.count_append, List.count_cons_self, ih hls, List.count_eq_zero.2 hk, List.length_cons]
    omega

/-- Behind the last line feed there is the last stretch. -/
private theorem takeWhile_fed_append (hl : '\n' ∉ l) : (fed ls ++ l).reverse.takeWhile (· ≠ '\n') = l.reverse := by
  have hpos : ∀ c ∈ l.reverse, decide (c ≠ '\n') = true := by
    intro c hc
    simp only [decide_eq_true_eq]
    rintro rfl
    exact hl (List.mem_reverse.1 hc)
  have hfed : (fed ls).reverse.takeWhile (· ≠ '\n') = [] := by
    rcases List.eq_nil_or_concat ls with rfl | ⟨ls, k, rfl⟩
    · rfl
    · simp [fed]
  rw [List.reverse_append, List.takeWhile_append_of_pos hpos, hfed, List.append_nil]

/-! ### Lines by line feeds -/

private theorem feedLines_append_feed (hl : '\n' ∉ l) (cs : List Char) :
    feedLines (l ++ '\n' :: cs) = l :: feedLines cs := by
  induction l with
  | nil => simp [feedLines]
  | cons c l ih =>
    obtain ⟨hc, hl⟩ : '\n' ≠ c ∧ '\n' ∉ l := by simpa using hl
    rw [List.cons_append, feedLines, if_neg (Ne.symm hc), ih hl, consLine]

private theorem feedLines_of_notMem (hl : '\n' ∉ l) : feedLines l = [l] := by
  induction l with
  | nil => rfl
  | cons c l ih =>
    obtain ⟨hc, hl⟩ : '\n' ≠ c ∧ '\n' ∉ l := by simpa using hl
    rw [feedLines, if_neg (Ne.symm hc), ih hl, consLine]

theorem feedLines_fed_append (hls : ∀ l ∈ ls, '\n' ∉ l) (cs : List Char) :
    feedLines (fed ls ++ cs) = ls ++ feedLines cs := by
  induction ls with
  | nil => rfl
  | cons l ls ih =>
    obtain ⟨hl, hls⟩ := List.forall_mem_cons.1 hls
    rw [fed_cons_append, feedLines_append_feed hl, ih hls, List.cons_append]

/-! ### Lines by all separators -/

private theorem lines_of_plain_char (h : isSeparator c = false) (cs : List Char) :
    lines (c :: cs) = consLine c (lines cs) := by
  rw [lines, if_neg (by simp [h])]
  rintro cs' rfl -
  cases h

private theorem lines_of_separator (h : isSeparator c = true) (hreturn : c = '\r' → cs.head? ≠ some '\n') :
    lines (c :: cs) = [] :: lines cs := by
  rw [lines, if_pos h]
  rintro cs' rfl rfl
  exact hreturn rfl rfl

private theorem lines_ne_nil (h : cs ≠ []) : lines cs ≠ [] := by
  fun_cases lines cs with
  | case1 => exact absurd rfl h
  | case2 => simp
  | case3 => simp
  | case4 c cs =>
    cases lines cs <;> simp [consLine]

private theorem consLine_append {ls' : List (List Char)} (h : ls ≠ []) :
    consLine c (ls ++ ls') = consLine c ls ++ ls' := by
  cases ls with
  | nil => exact absurd rfl h
  | cons l ls => rfl

/-- A line feed ends a line, whatever stands in front of it. -/
theorem lines_append_feed (l cs : List Char) : lines (l ++ '\n' :: cs) = lines (l ++ ['\n']) ++ lines cs := by
  have hfeed : ∀ ds, lines ('\n' :: ds) = [] :: lines ds := fun ds =>
    lines_of_separator rfl (absurd · (by decide))
  fun_induction lines l with
  | case1 => rw [List.nil_append, List.nil_append, hfeed, hfeed]; rfl
  | case2 l ih => exact congrArg ([] :: ·) ih
  | case3 c l hreturn hc ih =>
    cases l with
    | nil =>
      -- only a carriage return at the end of `l` is one separator with the line feed
      by_cases hr : c = '\r'
      · subst hr
        rfl
      · have hcut : ∀ ds, lines (c :: ds) = [] :: lines ds := fun ds => lines_of_separator hc (absurd · hr)
        rw [List.cons_append, List.cons_append, hcut, hcut, ih]
        rfl
    | cons d l =>
      have hcut : ∀ ds, lines (c :: d :: l ++ ds) = [] :: lines (d :: l ++ ds) := by
        intro ds
        refine lines_of_separator hc ?_
        rintro rfl hd
        cases hd
        exact hreturn l rfl rfl
      rw [hcut, hcut, ih]
      rfl
  | case4 c l _ hc ih =>
    have hc : isSeparator c = false := by simpa using hc
    rw [List.cons_append, List.cons_append, lines_of_plain_char hc, lines_of_plain_char hc, ih,
      consLine_append (lines_ne_nil (by simp))]

theorem lines_fed_append (ls : List (List Char)) (cs : List Char) :
    lines (fed ls ++ cs) = lines (fed ls) ++ lines cs := by
  induction ls with
  | nil => rfl
  | cons l ls ih =>
    rw [fed_cons_append, lines_append_feed, ih, fed_cons, lines_append_feed l (fed ls), List.append_assoc]

theorem isSeparator_of_mem_lines (h : l ∈ lines cs) : ∀ c ∈ l, isSeparator c = false := by
  fun_induction lines cs generalizing l with
  | case1 => cases h
  | case2 cs ih =>
    rcases List.mem_cons.1 h with rfl | h
    · simp
    · exact ih h
  | case3 c cs _ _ ih =>
    rcases List.mem_cons.1 h with rfl | h
    · simp
    · exact ih h
  | case4 c cs _ hc ih =>
    have hc : isSeparator c = false := by simpa using hc
    cases hls : lines cs with
    | nil =>
      rw [hls] at h
      rcases List.mem_singleton.1 h
      simpa using hc
    | cons k ks =>
      rw [hls] at h ih
      rcases List.mem_cons.1 h with rfl | h
      · exact List.forall_mem_cons.2 ⟨hc, ih List.mem_cons_self⟩
      · exact ih (List.mem_cons_of_mem _ h)

/-! ### Plain lines -/

private theorem dropReturn_cons (h : c = '\r' → l ≠ []) : dropReturn (c :: l) = c :: dropReturn l := by
  cases l with
  | nil =>
    have hc : c ≠ '\r' := fun hc => h hc rfl
    simp [dropReturn, hc]
  | cons d l =>
    simp only [dropReturn, List.getLast?_cons_cons, List.dropLast_cons_cons]
    split <;> rfl

private theorem plain_cons_iff (h : c = '\r' → l ≠ []) : Plain (c :: l) ↔ isSeparator c = false ∧ Plain l := by
  rw [Plain, dropReturn_cons h, List.forall_mem_cons]
  rfl

private theorem getElem?_dropReturn {i : Nat} (h : l[i]? = some c) (hc : c ≠ '\r') : (dropReturn l)[i]? = some c := by
  unfold dropReturn
  split
  · next hlast =>
    rw [List.getLast?_eq_getElem?] at hlast
    have hi : i ≠ l.length - 1 := by
      rintro rfl
      exact hc (Option.some.inj (h.symm.trans hlast))
    have := (List.getElem?_eq_some_iff.1 h).1
    rw [List.getElem?_dropLast, if_pos (by omega), h]
  · exact h

/-- A plain line is one line, at the end of a text or in front of a line feed. -/
theorem lines_of_plain (h : Plain l) (htail : tail = [] ∨ tail = ['\n']) (hne : l ++ tail ≠ []) :
    lines (l ++ tail) = [dropReturn l] := by
  induction l with
  | nil =>
    rcases htail with rfl | rfl
    · exact absurd rfl hne
    · rfl
  | cons c l ih =>
    by_cases hc : c = '\r' → l ≠ []
    · obtain ⟨hplain, hl⟩ := (plain_cons_iff hc).1 h
      rw [List.cons_append, lines_of_plain_char hplain, dropReturn_cons hc]
      by_cases hnil : l ++ tail = []
      · obtain ⟨rfl, rfl⟩ := List.append_eq_nil_iff.1 hnil
        rfl
      · rw [ih hl hnil, consLine]
    · obtain ⟨rfl, rfl⟩ : c = '\r' ∧ l = [] := by simpa using hc
      rcases htail with rfl | rfl <;> rfl

private theorem lines_eq_iff_plain (h : l ≠ []) : lines l = [dropReturn l] ↔ Plain l := by
  constructor
  · intro hl
    exact isSeparator_of_mem_lines (hl ▸ List.mem_singleton_self _)
  · intro hl
    simpa using lines_of_plain hl (.inl rfl) (by simpa using h)

/-- A line that is not plain is cut into several. -/
private theorem length_lines_line (hl : '\n' ∉ l) :
    1 ≤ (lines (l ++ ['\n'])).length ∧ ((lines (l ++ ['\n'])).length = 1 ↔ Plain l) := by
  have hpos : ∀ l, 1 ≤ (lines (l ++ ['\n'])).length := fun l =>
    List.length_pos_iff.2 (lines_ne_nil (by simp))
  refine ⟨hpos l, fun h => ?_, fun h => by rw [lines_of_plain h (.inr rfl) (by simp)]; rfl⟩
  induction l with
  | nil => simp [Plain, dropReturn]
  | cons c l ih =>
    obtain ⟨hfeed, hl⟩ : '\n' ≠ c ∧ '\n' ∉ l := by simpa using hl
    by_cases hc : c = '\r' → l ≠ []
    · have hplain : isSeparator c = false := by
        by_cases hsep : isSeparator c = true
        · have hreturn : c = '\r' → (l ++ ['\n']).head? ≠ some '\n' := by
            intro hr
            obtain ⟨d, l, rfl⟩ := List.exists_cons_of_ne_nil (hc hr)
            rintro ⟨⟩
            simp at hl
          rw [List.cons_append, lines_of_separator hsep hreturn, List.length_cons] at h
          have := hpos l
          omega
        · simpa using hsep
      refine (plain_cons_iff hc).2 ⟨hplain, ih hl ?_⟩
      rw [List.cons_append, lines_of_plain_char hplain] at h
      cases hls : lines (l ++ ['\n']) with
      | nil => exact absurd hls (lines_ne_nil (by simp))
      | cons k ks => simpa [hls, consLine] using h
    · obtain ⟨rfl, rfl⟩ : c = '\r' ∧ l = [] := by simpa using hc
      simp [Plain, dropReturn]

/-- Lines are counted alike by both rules exactly if they are plain. -/
private theorem length_lines_fed (hls : ∀ l ∈ ls, '\n' ∉ l) :
    ls.length ≤ (lines (fed ls)).length ∧ ((lines (fed ls)).length = ls.length ↔ ∀ l ∈ ls, Plain l) := by
  induction ls with
  | nil => simp [fed, lines]
  | cons l ls ih =>
    obtain ⟨hl, hls⟩ := List.forall_mem_cons.1 hls
    obtain ⟨hle, hiff⟩ := ih hls
    obtain ⟨hone, hplain⟩ := length_lines_line hl
    rw [fed_cons, lines_append_feed, List.length_append, List.length_cons, List.forall_mem_cons, ← hplain, ← hiff]
    omega

end Text

/-! ### Tokens on their lines -/

namespace Mark

open Text

/-- The token of a mark is on a line between line feeds, behind the lines `ls`. -/
structure OnLine (cs : List Char) (m : Mark) (ls : List (List Char)) (line : List Char) : Prop where
  text : ∃ back, cs = fed ls ++ (line ++ back) ∧ (back = [] ∨ ∃ rest, back = '\n' :: rest)
  front : ∀ l ∈ ls, '\n' ∉ l
  own : '\n' ∉ line
  number : m.token.line = ls.length + 1
  place : m.start + 1 = (fed ls).length + m.token.column
  column : 0 < m.token.column ∧ m.token.column ≤ line.length

variable {file : String} {cs line : List Char} {m : Mark} {ls : List (List Char)}

/-- The first character of a token is no carriage return, and a line feed is a token by itself. -/
private theorem Fits.first (h : m.Fits file cs) :
    ∃ c rest, cs.drop m.start = c :: rest ∧ c ≠ '\r' ∧ (m.token.lexeme ≠ .newline → c ≠ '\n') := by
  obtain ⟨c, ds, htext, hscan⟩ := h.tight
  have hdrop : cs.drop m.start = c :: (ds ++ cs.drop m.stop) := by
    have hcs : cs.drop m.start = (cs.take m.stop ++ cs.drop m.stop).drop m.start := by rw [List.take_append_drop]
    have hne : (cs.take m.stop).drop m.start ≠ [] := by
      rw [← Mark.text, htext]
      simp
    rw [hcs, List.drop_append_of_le_length (Nat.le_of_lt (List.length_lt_of_drop_ne_nil hne)), ← Mark.text, htext,
      List.cons_append]
  refine ⟨c, _, hdrop, ?_, ?_⟩
  · rintro rfl
    exact absurd (Lexer.not_gap_of_scan hscan).1 (by decide)
  · rintro hlexeme rfl
    have hfeed : '\n' ∈ m.text cs := htext ▸ List.mem_cons_self
    exact hlexeme (congrArg Lexer.Scanned.lexeme (Lexer.newline_of_scan hscan hfeed).1)

private theorem Fits.exists_onLine (h : m.Fits file cs) (hn : m.token.lexeme ≠ .newline) :
    ∃ ls line, m.OnLine cs ls line := by
  obtain ⟨c, rest, hdrop, -, hfeed⟩ := h.first
  obtain ⟨ls, before, htake, hls, hbefore⟩ := exists_fed (cs.take m.start)
  have hstart : m.start = (fed ls).length + before.length := by
    have hle : m.start < cs.length := List.length_lt_of_drop_ne_nil (by rw [hdrop]; simp)
    have hlength := congrArg List.length htake
    rw [List.length_take, List.length_append] at hlength
    omega
  have hcolumn : m.token.column = before.length + 1 := by
    rw [h.column, columnAt, htake, takeWhile_fed_append hbefore, List.length_reverse]
  have hline : '\n' ∉ before ++ c :: rest.takeWhile (· ≠ '\n') := by
    intro hmem
    rcases List.mem_append.1 hmem with hmem | hmem
    · exact hbefore hmem
    · rcases List.mem_cons.1 hmem with hc | hmem
      · exact hfeed hn hc.symm
      · simpa using List.mem_takeWhile_imp hmem
  refine ⟨ls, before ++ c :: rest.takeWhile (· ≠ '\n'), ⟨rest.dropWhile (· ≠ '\n'), ?_, ?_⟩, hls, hline, ?_, ?_, ?_⟩
  · rw [← List.take_append_drop m.start cs, htake, hdrop]
    simp
  · cases hback : rest.dropWhile (· ≠ '\n') with
    | nil => exact .inl rfl
    | cons d ds =>
      have havoids := Lexer.avoids_dropWhile (· ≠ '\n') rest
      rw [hback, Lexer.avoids_cons] at havoids
      obtain rfl : d = '\n' := by simpa using havoids
      exact .inr ⟨ds, rfl⟩
  · rw [h.line, lineAt, htake, count_fed_append hls hbefore]
  · omega
  · rw [List.length_append, List.length_cons]
    omega

namespace OnLine

private theorem line_ne_nil (h : m.OnLine cs ls line) : line ≠ [] := by
  rintro rfl
  have := h.column
  simp only [List.length_nil] at this
  omega

private theorem feedLines_eq (h : m.OnLine cs ls line) : ∃ more, feedLines cs = ls ++ line :: more := by
  obtain ⟨back, rfl, hback⟩ := h.text
  rw [feedLines_fed_append h.front]
  rcases hback with rfl | ⟨rest, rfl⟩
  · rw [List.append_nil, feedLines_of_notMem h.own]
    exact ⟨[], rfl⟩
  · rw [feedLines_append_feed h.own]
    exact ⟨feedLines rest, rfl⟩

private theorem getElem?_feedLines (h : m.OnLine cs ls line) : (feedLines cs)[m.token.line - 1]? = some line := by
  obtain ⟨more, hmore⟩ := h.feedLines_eq
  rw [hmore, h.number, Nat.add_sub_cancel, List.getElem?_append_right (Nat.le_refl _), Nat.sub_self]
  rfl

private theorem take_feedLines (h : m.OnLine cs ls line) : (feedLines cs).take m.token.line = ls ++ [line] := by
  obtain ⟨more, hmore⟩ := h.feedLines_eq
  rw [hmore, h.number, ← List.singleton_append, ← List.append_assoc, List.take_left' (by simp)]

/-- The lines up to that of a token are counted alike and quoted as they stand exactly if they are plain. -/
private theorem counted_iff (h : m.OnLine cs ls line) :
    (Text.lines (fed ls)).length = ls.length ∧ Text.lines line = [dropReturn line] ↔
      ∀ l ∈ ls ++ [line], Plain l := by
  rw [(length_lines_fed h.front).2, lines_eq_iff_plain h.line_ne_nil]
  simp only [List.forall_mem_append, List.forall_mem_singleton]

private theorem lines_eq (h : m.OnLine cs ls line) (hplain : ∀ l ∈ ls ++ [line], Plain l) :
    (Text.lines cs)[ls.length]? = some (dropReturn line) := by
  obtain ⟨hlength, hline⟩ := h.counted_iff.2 hplain
  obtain ⟨back, rfl, hback⟩ := h.text
  rw [lines_fed_append, List.getElem?_append_right (Nat.le_of_eq hlength), hlength, Nat.sub_self]
  rcases hback with rfl | ⟨rest, rfl⟩
  · rw [List.append_nil, hline]
    rfl
  · have hown : Plain line := hplain line (by simp)
    rw [lines_append_feed, lines_of_plain hown (.inr rfl) (by simp)]
    rfl

/-- The first character of a token stands at its column. -/
private theorem getElem?_dropReturn (h : m.OnLine cs ls line) (hm : m.Fits file cs) :
    (dropReturn line)[m.token.column - 1]? = cs[m.start]? := by
  obtain ⟨c, rest, hdrop, hc, -⟩ := hm.first
  have hstart : cs[m.start]? = some c := by
    have hhead := congrArg List.head? hdrop
    rwa [List.head?_drop] at hhead
  rw [hstart]
  refine Text.getElem?_dropReturn ?_ hc
  obtain ⟨back, hcs, -⟩ := h.text
  have hplace := h.place
  have hcolumn := h.column
  rw [hcs, List.getElem?_append_right (by omega), List.getElem?_append_left (by omega)] at hstart
  rwa [show m.start - (fed ls).length = m.token.column - 1 by omega] at hstart

end OnLine

end Mark

/-! ### Quotations -/

variable {source file : String} {tokens : List Token} {ls : List (List Char)} {line : List Char} {m : Mark}

/-- All tokens but the end mark have their marks. -/
private theorem exists_fits (ht : tokenize source file = .ok tokens) {t : Token} (hmem : t ∈ tokens)
    (he : t.lexeme ≠ .eof) :
    ∃ m : Mark, m.token = t ∧ m.Fits file source.toList := by
  obtain ⟨marks, eof, stop, rfl, heof, -, -, hmarked, -⟩ :=
    Lexer.marked_of_tokensFrom (tokensFrom_of_tokenize ht) [] rfl
  rcases List.mem_append.1 hmem with hmem | hmem
  · obtain ⟨m, hm, rfl⟩ := List.mem_map.1 hmem
    exact ⟨m, rfl, hmarked.fits m hm⟩
  · rcases List.mem_singleton.1 hmem
    exact absurd heof he

private theorem lineText?_of_plain (h : m.OnLine source.toList ls line) (hplain : ∀ l ∈ ls ++ [line], Text.Plain l) :
    lineText? (quotedLines source) m.token.line = some (String.ofList (Text.dropReturn line)) := by
  rw [h.number, lineText?, if_neg (Nat.succ_ne_zero _), Nat.add_sub_cancel, quotedLines, List.getElem?_map,
    h.lines_eq hplain]
  rfl

private theorem Problem.quotation_at (p : Problem) {lines : List String} {t : Token} {text : String} (hc : 0 < t.column)
    (h : lineText? lines t.line = some text) :
    (p.at lines t).quotation = ["    " ++ text, String.ofList (List.replicate (t.column + 3) ' ') ++ "^"] := by
  have hcolumn : (0 : Int) < (t.column : Int) := by omega
  simp only [Problem.at, h, Diagnostic.quotation, Token.location, if_pos hcolumn, Int.toNat_natCast]

private theorem Listing.rowsOf_eq {lines : List String} {row : Row} {text : String}
    (h : lineText? lines row.line = some text) :
    ∃ bytes more, rowsOf lines row = headRow row.address bytes row.line text :: more := by
  unfold rowsOf
  rw [h]
  cases rows row.data with
  | nil => exact ⟨[], [], rfl⟩
  | cons bytes rest => exact ⟨bytes, _, rfl⟩

/-- The first token of a statement is one of the source and neither a line break nor the end mark. -/
private theorem Line.first_of_split (tokens : List Token) {l : Line} {st : Statement} (hl : l ∈ split tokens)
    (h : l.statement? = some st) :
    st.first ∈ tokens ∧ st.first.lexeme ≠ .newline ∧ st.first.lexeme ≠ .eof := by
  have hfirst := (label_of_statement? h).1
  obtain ⟨done, rest, hlines⟩ := List.append_of_mem hl
  obtain ⟨⟨after, htokens⟩, hclosed, -⟩ := tokens_of_split hlines
  refine ⟨?_, hclosed.body _ hfirst⟩
  rw [htokens]
  simp [Line.tokens, hfirst]

/-- A token stands at its column of the line between the line feeds around it, and a lexical fault there quotes that
line.  The rule that all other diagnostics and the listing quote by counts the lines alike and takes that line for one
exactly if there are no other line separators in the lines up to it than a carriage return at the end of each.  Then the
line is quoted, less such a carriage return, the caret is below the first character of the token, and the row of a
statement shows the line of its first token. -/
theorem tokens_are_quoted_in_their_lines (ht : tokenize source file = .ok tokens) :
    (∀ t ∈ tokens, t.lexeme ≠ .newline → t.lexeme ≠ .eof →
      ∃ (m : Mark) (ls : List (List Char)) (line : List Char),
        m.token = t ∧ m.Fits file source.toList ∧ m.OnLine source.toList ls line ∧
        (Text.feedLines source.toList)[t.line - 1]? = some line ∧
        ((Text.lines (Text.fed ls)).length = t.line - 1 ∧ Text.lines line = [Text.dropReturn line] ↔
          ∀ l ∈ (Text.feedLines source.toList).take t.line, Text.Plain l) ∧
        ((∀ l ∈ (Text.feedLines source.toList).take t.line, Text.Plain l) →
          (∀ c : Cursor, c.lines = quotedLines source →
            c.sourceLine t = some (String.ofList (Text.dropReturn line))) ∧
          (∀ p : Problem, (p.at (quotedLines source) t).quotation =
            ["    " ++ String.ofList (Text.dropReturn line),
              String.ofList (List.replicate (t.column + 3) ' ') ++ "^"]) ∧
          ("    " ++ String.ofList (Text.dropReturn line)).toList[t.column + 3]? = source.toList[m.start]? ∧
          ∀ row : Row, row.line = t.line → ∃ bytes more, Listing.rowsOf (quotedLines source) row =
            Listing.headRow row.address bytes row.line (String.ofList (Text.dropReturn line)) :: more)) ∧
    ∀ (z z' : Session) (base : Option Int) (log : List Report) (code : List UInt8),
      z.assemble source base file = (z', log, .ok code) →
      ∃ (r : Results) (entries : List (Statement × Row)), z'.last = some r ∧ r.lines = quotedLines source ∧
        entries.map Prod.snd = r.state.listing.toList ∧
        entries.map Prod.fst = (Line.upToEnd (Line.split tokens)).filterMap Line.statement? ∧
        ∀ e ∈ entries, e.2.line = e.1.first.line ∧
          e.1.first ∈ tokens ∧ e.1.first.lexeme ≠ .newline ∧ e.1.first.lexeme ≠ .eof := by
  constructor
  · rintro t hmem hn he
    obtain ⟨m, rfl, hm⟩ := exists_fits ht hmem he
    obtain ⟨ls, line, h⟩ := hm.exists_onLine hn
    refine ⟨m, ls, line, rfl, hm, h, h.getElem?_feedLines, ?_, ?_⟩
    · rw [h.take_feedLines, ← h.counted_iff, h.number, Nat.add_sub_cancel]
    · rw [h.take_feedLines]
      intro hplain
      have htext := lineText?_of_plain h hplain
      refine ⟨fun c hc => by rw [Cursor.sourceLine, hc, htext], fun p => p.quotation_at h.column.1 htext, ?_,
        fun row hrow => Listing.rowsOf_eq (hrow ▸ htext)⟩
      have hcolumn := h.column.1
      have hfour : "    ".toList.length = 4 := rfl
      rw [← h.getElem?_dropReturn hm, String.toList_append, List.getElem?_append_right (by omega), hfour,
        String.toList_ofList, show m.token.column + 3 - 4 = m.token.column - 1 by omega]
  · intro z z' base log code hz
    obtain ⟨r, tokens', symbols, s₁, s₂, hlast, -, hrun⟩ := Session.assemble_eq_ok hz
    cases hrun.tokenized.symm.trans ht
    have hlines : r.lines = quotedLines source := by
      have hresult : (z.assemble source base file).1.last = _ := (Session.assemble_of_run hrun.seeded ht).1
      rw [hz, hlast] at hresult
      cases hresult
      rfl
    refine ⟨r, _, hlast, hlines, (hrun.listing_eq ▸ hrun.second.listing_eq rfl).symm, hrun.second.map_fst_entries rfl,
      fun e hmem => ⟨(hrun.second.laid rfl).line_of_mem hmem, ?_⟩⟩
    obtain ⟨v, hv, he⟩ := List.mem_flatMap.1 hmem
    obtain ⟨k, hk⟩ := List.getElem?_of_mem hv
    have hline := List.mem_of_getElem? (line_of_visits (hrun.second.visits_eq ▸ hk))
    obtain ⟨st, hst, rfl⟩ := List.mem_map.1 he
    exact Line.first_of_split tokens hline (Option.mem_toList.1 hst)

/-- A source with carriage returns in front of its line feeds, and another separator in a comment at its end. -/
private def returned : String :=
  "go: fcb \"a\"\r\n\tnop ; x\r\n; y\x0cz\n"

theorem tokens_are_quoted_in_their_lines_returned :
    ∃ (tokens : List Token) (m : Mark), tokenize returned "main.asm" = .ok tokens ∧
      m.token = ⟨.opcode .nop, 4, "main.asm", 2, 2⟩ ∧ m.token ∈ tokens ∧ m.Fits "main.asm" returned.toList ∧
      (∀ p : Problem, (p.at (quotedLines returned) m.token).quotation = ["    \tnop ; x", "     ^"]) ∧
      returned.toList[m.start]? = some 'n' ∧
      (Text.feedLines returned.toList)[1]? = some "\tnop ; x\r".toList := by
  let tokens := (tokenize returned "main.asm").toOption.getD []
  have ht : tokenize returned "main.asm" = .ok tokens := tokenize_eq_ok (by decide +kernel)
  have hmem : ⟨.opcode .nop, 4, "main.asm", 2, 2⟩ ∈ tokens := by decide +kernel
  have hlines : (Text.feedLines returned.toList).take 2 = ["go: fcb \"a\"\r".toList, "\tnop ; x\r".toList] := by
    decide +kernel
  have hplain : ∀ l ∈ (Text.feedLines returned.toList).take 2, Text.Plain l := by
    rw [hlines]
    refine List.forall_mem_cons.2 ⟨?_, List.forall_mem_singleton.2 ?_⟩ <;> decide +kernel
  obtain ⟨m, ls, line, hm, hfits, -, hline, -, hquoted⟩ :=
    (tokens_are_quoted_in_their_lines ht).1 _ hmem (by simp) (by simp)
  obtain ⟨-, hp, hfirst, -⟩ := hquoted hplain
  have hfeed : (Text.feedLines returned.toList)[1]? = some "\tnop ; x\r".toList := by decide +kernel
  cases hline.symm.trans hfeed
  refine ⟨tokens, m, ht, hm, hm ▸ hmem, hfits, fun p => ?_, hfirst.symm.trans ?_, hfeed⟩
  · rw [hm, hp]
    decide +kernel
  · decide +kernel

/-- A form feed in a comment shifts what is quoted for the lines behind it. -/
theorem form_feed_shifts_quotations :
    ∃ tokens : List Token, tokenize "; page\x0c\n nop\n" "main.asm" = .ok tokens ∧
      ⟨.opcode .nop, 1, "main.asm", 2, 2⟩ ∈ tokens ∧
      (Text.feedLines "; page\x0c\n nop\n".toList)[1]? = some " nop".toList ∧
      ∀ c : Cursor, c.lines = quotedLines "; page\x0c\n nop\n" →
        c.sourceLine ⟨.opcode .nop, 1, "main.asm", 2, 2⟩ = some "" := by
  refine ⟨(tokenize "; page\x0c\n nop\n" "main.asm").toOption.getD [], tokenize_eq_ok (by decide +kernel),
    by decide +kernel, by decide +kernel, fun c hc => ?_⟩
  rw [Cursor.sourceLine, hc]
  decide +kernel

end Mc6809
