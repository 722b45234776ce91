import Mc6809.Proofs.Ending

/-!
# Tokens and the text that they stand for

Every token but the end mark stands for a stretch of the source (`Mark`).  The stretches follow each other, each is
read as its token by itself, and what lies between them are blanks and comments (`Marked`).  Tokens are read one after
the other, so a mark is put in front of those behind it (`Marked.cons`), and what is skipped in front of a mark makes
no difference to the marks (`Marked.widen`).  `tokens_mark_their_places` has the whole source.
-/

namespace Mc6809

/-! ### Places -/

namespace Text

/-- The line of a place: one more than there are line feeds in front of it. -/
def lineAt (cs : List Char) (i : Nat) : Nat :=
  (cs.take i).count '\n' + 1

/-- The column of a place: one more than there are characters between it and the last line feed in front of it, or
the start of the text. -/
def columnAt (cs : List Char) (i : Nat) : Nat :=
  ((cs.take i).reverse.takeWhile (· ≠ '\n')).length + 1

/-- A comment from one place up to another, where the line ends. -/
structure Comment (cs : List Char) (i j : Nat) : Prop where
  opens : cs[i]? = some ';' ∨ cs[i]? = some '*'
  line : ∀ k, i ≤ k → k < j → cs[k]? ≠ some '\n'
  ends : j = cs.length ∨ cs[j]? = some '\n'

end Text

/-- Positions are counted by line feeds. -/
private theorem Position.start_advance (cs : List Char) :
    Position.start.advance cs =
      ⟨cs.count '\n' + 1, (cs.reverse.takeWhile (· ≠ '\n')).length + 1⟩ := by
  -- the last character decides about the column, so the induction takes characters off the end
  suffices h : ∀ ds : List Char, Position.start.advance ds.reverse =
      ⟨ds.count '\n' + 1, (ds.takeWhile (· ≠ '\n')).length + 1⟩ by
    have hcs := h cs.reverse
    rwa [List.reverse_reverse, List.count_reverse] at hcs
  intro ds
  induction ds with
  | nil => rfl
  | cons d ds ih =>
    rw [List.reverse_cons, Position.advance_append, ih]
    show Position.step _ d = _
    unfold Position.step
    by_cases hd : d = '\n'
    · simp [hd]
    · simp [hd]

theorem Position.start_advance_take (cs : List Char) (i : Nat) :
    Position.start.advance (cs.take i) = ⟨Text.lineAt cs i, Text.columnAt cs i⟩ :=
  Position.start_advance _

/-! ### Marks -/

/-- A token and the stretch of a text that it stands for, from `start` up to `stop`. -/
structure Mark where
  token : Token
  start : Nat
  stop : Nat

namespace Mark

def Holds (m : Mark) (i : Nat) : Prop :=
  m.start ≤ i ∧ i < m.stop

/-- The characters that a token stands for. -/
def text (cs : List Char) (m : Mark) : List Char :=
  (cs.take m.stop).drop m.start

/-- A token has the place of its first character, and its text alone is read as the same token, without a blank or a
comment in front of the lexeme or behind it. -/
structure Fits (file : String) (cs : List Char) (m : Mark) : Prop where
  nonempty : m.start < m.stop
  line : m.token.line = Text.lineAt cs m.start
  column : m.token.column = Text.columnAt cs m.start
  alone : ∃ tokens, tokenize (String.ofList (m.text cs)) file = .ok tokens ∧
    tokens.map Token.lexeme = [m.token.lexeme, .eof]
  tight : ∃ c ds, m.text cs = c :: ds ∧ Lexer.scan c ds = .ok ⟨m.token.lexeme, m.text cs, []⟩

/-- No token stands for the character at a place. -/
def Free (marks : List Mark) (i : Nat) : Prop :=
  ∀ m ∈ marks, ¬m.Holds i

/-- The character at a place is a blank, or part of a comment that starts at `n` or later and has no tokens in it. -/
inductive Skipped (cs : List Char) (marks : List Mark) (n i : Nat) : Prop
  | blank {c : Char} (hi : cs[i]? = some c) (hc : c = ' ' ∨ c = '\t' ∨ c = '\r')
  | comment {j k : Nat} (hn : n ≤ j) (hi : j ≤ i ∧ i < k) (hc : Text.Comment cs j k)
      (hfree : ∀ l, j ≤ l → l < k → Free marks l)

private theorem Skipped.mono {cs : List Char} {marks marks' : List Mark} {n n' i : Nat} (h : Skipped cs marks n' i)
    (hle : n ≤ n') (hfree : ∀ l, n' ≤ l → Free marks l → Free marks' l) : Skipped cs marks' n i := by
  cases h with
  | blank hi hc => exact .blank hi hc
  | comment hn hi hc hclear =>
    exact .comment (Nat.le_trans hle hn) hi hc fun l hl hlk => hfree l (Nat.le_trans hn hl) (hclear l hl hlk)

end Mark

open Lexer Mark

/-- Marks that account for the text from `n` up to `stop`. -/
structure Marked (file : String) (cs : List Char) (n : Nat) (marks : List Mark) (stop : Nat) : Prop where
  fits : ∀ m ∈ marks, m.Fits file cs
  within : ∀ m ∈ marks, n ≤ m.start ∧ m.stop ≤ stop
  apart : marks.Pairwise fun m m' => m.stop ≤ m'.start
  skipped : ∀ i, n ≤ i → i < stop → Free marks i → Skipped cs marks n i
  bounds : n ≤ stop ∧ stop ≤ cs.length

namespace Marked

variable {file : String} {cs : List Char} {n n' stop : Nat} {marks : List Mark} {m : Mark}

private theorem nil (h : n ≤ cs.length) : Marked file cs n [] n where
  fits := by simp
  within := by simp
  apart := .nil
  skipped := by
    intro i hn hi
    omega
  bounds := ⟨Nat.le_refl n, h⟩

/-- All is free in front of the marks. -/
private theorem free (h : Marked file cs n marks stop) {i : Nat} (hi : i < n) : Free marks i := by
  intro m hm hholds
  have hstart := (h.within m hm).1
  have := hholds.1
  omega

/-- What is skipped in front of the marks. -/
theorem widen (h : Marked file cs n' marks stop) (hle : n ≤ n')
    (hskip : ∀ i, n ≤ i → i < n' → Skipped cs marks n i) : Marked file cs n marks stop where
  fits := h.fits
  within := by
    intro m hm
    have := h.within m hm
    omega
  apart := h.apart
  skipped := by
    intro i hi hstop hfree
    by_cases hlt : i < n'
    · exact hskip i hi hlt
    · exact (h.skipped i (by omega) hstop hfree).mono hle fun _ _ hl => hl
  bounds := ⟨by have := h.bounds; omega, h.bounds.2⟩

private theorem blank {c : Char} (h : Marked file cs (n + 1) marks stop) (hn : cs[n]? = some c)
    (hc : isSkipped c = true) : Marked file cs n marks stop := by
  refine h.widen (by omega) fun i hi hlt => ?_
  obtain rfl : i = n := by omega
  simp only [isSkipped, Bool.or_eq_true, decide_eq_true_eq] at hc
  exact .blank hn (or_assoc.1 hc)

private theorem comment (h : Marked file cs n' marks stop) (hle : n ≤ n') (hc : Text.Comment cs n n') :
    Marked file cs n marks stop := by
  exact h.widen hle fun i hi hlt => .comment (Nat.le_refl n) ⟨hi, hlt⟩ hc fun _ _ hl => h.free hl

/-- A token in front of the marks. -/
theorem cons (h : Marked file cs m.stop marks stop) (hm : m.Fits file cs) :
    Marked file cs m.start (m :: marks) stop where
  fits := List.forall_mem_cons.2 ⟨hm, h.fits⟩
  within := by
    have hlt := hm.nonempty
    refine List.forall_mem_cons.2 ⟨⟨Nat.le_refl _, h.bounds.1⟩, fun m' hm' => ?_⟩
    have := h.within m' hm'
    omega
  apart := List.pairwise_cons.2 ⟨fun m' hm' => (h.within m' hm').1, h.apart⟩
  skipped := by
    intro i hi hstop hfree
    obtain ⟨hout, hrest⟩ := List.forall_mem_cons.1 hfree
    have hbehind : m.stop ≤ i := by
      by_cases hlt : i < m.stop
      · exact absurd ⟨hi, hlt⟩ hout
      · omega
    refine (h.skipped i hbehind hstop hrest).mono (Nat.le_of_lt hm.nonempty) fun l hl hclear => ?_
    exact List.forall_mem_cons.2 ⟨fun hholds => absurd hholds.2 (Nat.not_lt.2 hl), hclear⟩
  bounds := ⟨by have := hm.nonempty; have := h.bounds; omega, h.bounds.2⟩

end Marked

/-! ### Starts of statements -/

/-- A statement starts behind the last line break, with nothing but labels in between. -/
private theorem labels_of_startsBehind {start : Bool} {ts : List Token} (h : startsBehind start ts = true) :
    ∃ front labels, ts = front ++ labels ∧ (∀ t ∈ labels, t.kind = .label) ∧
      (front = [] ∧ start = true ∨ ∃ t, front.getLast? = some t ∧ t.lexeme = .newline) := by
  induction ts generalizing start with
  | nil => exact ⟨[], [], rfl, by simp, .inl ⟨rfl, h⟩⟩
  | cons t ts ih =>
    have hrest : startsBehind (startsAfter start t.lexeme) ts = true := h
    obtain ⟨front, labels, rfl, hlabels, hfront⟩ := ih hrest
    rcases hfront with ⟨rfl, hstart⟩ | ⟨u, hlast, hu⟩
    · unfold startsAfter at hstart
      split at hstart
      · next ht => exact ⟨[t], labels, rfl, hlabels, .inr ⟨t, rfl, ht⟩⟩
      · next name ht =>
        refine ⟨[], t :: labels, rfl, List.forall_mem_cons.2 ⟨?_, hlabels⟩, .inl ⟨rfl, hstart⟩⟩
        rw [Token.kind, ht, Lexeme.kind]
      · cases hstart
    · refine ⟨t :: front, labels, rfl, hlabels, .inr ⟨u, ?_, hu⟩⟩
      rw [List.getLast?_cons, hlast]
      rfl

/-- Where the tokens of a text end: where the text does, or behind an `end` that starts a statement. -/
inductive EndsAt (start : Bool) (cs : List Char) (marks : List Mark) (stop : Nat) : Prop
  | text (h : stop = cs.length)
  | directive {front : List Mark} {m : Mark} (hmarks : marks = front ++ [m])
      (hm : m.token.lexeme = .directive .stop) (hstop : m.stop = stop)
      (hstart : startsBehind start (front.map Mark.token) = true)

private theorem EndsAt.cons {start : Bool} {cs : List Char} {marks : List Mark} {stop : Nat} {m : Mark}
    (h : EndsAt (startsAfter start m.token.lexeme) cs marks stop) : EndsAt start cs (m :: marks) stop := by
  cases h with
  | text h => exact .text h
  | @directive front last hmarks hm hstop hstart =>
    have hcons : m :: marks = (m :: front) ++ [last] := congrArg (m :: ·) hmarks
    exact .directive hcons hm hstop hstart

/-! ### Reading -/

namespace Lexer

variable {file : String} {start : Bool} {c : Char} {cs : List Char} {s : Scanned}

/-- The text of a lexeme is read as that lexeme and nothing else. -/
private theorem tokenize_text (h : scan c cs = .ok s) (file : String) :
    ∃ tokens, tokenize (String.ofList s.text) file = .ok tokens ∧ tokens.map Token.lexeme = [s.lexeme, .eof] := by
  obtain ⟨text, htext, halone⟩ := scan_alone h
  rw [tokenize, String.toList_ofList, htext, tokensFrom_of_scan halone]
  split
  · next tokens htokens =>
    refine ⟨tokens, rfl, ?_⟩
    split at htokens
    · cases htokens
      rfl
    · rw [tokensFrom] at htokens
      cases htokens
      rfl
  · next herror =>
    split at herror
    · cases herror
    · rw [tokensFrom] at herror
      cases herror

/-- A lexeme behind some text marks its place. -/
private theorem fits_of_scan (h : scan c cs = .ok s) {front : List Char} {p : Position}
    (hp : Position.start.advance front = p) (file : String) (index : Nat) :
    Fits file (front ++ c :: cs)
      ⟨⟨s.lexeme, index, file, p.line, p.column⟩, front.length, (front ++ s.text).length⟩ := by
  obtain ⟨hsplit, hne⟩ := scan_text_append_rest h
  have hplace := Position.start_advance_take (front ++ c :: cs) front.length
  rw [List.take_left, hp] at hplace
  have htext : ((front ++ c :: cs).take (front ++ s.text).length).drop front.length = s.text := by
    rw [← hsplit, ← List.append_assoc, List.take_left, List.drop_left]
  refine ⟨?_, by rw [hplace], by rw [hplace], ?_, ?_⟩
  · have := List.length_pos_iff.2 hne
    dsimp only
    rw [List.length_append]
    omega
  · rw [text, htext]
    exact tokenize_text h file
  · obtain ⟨ds, hds, halone⟩ := scan_alone h
    rw [text, htext]
    exact ⟨c, ds, hds, halone⟩

private theorem comment_of_opensComment (hc : opensComment c = true) (front cs : List Char) :
    Text.Comment (front ++ c :: cs) front.length
      (front ++ c :: cs.takeWhile (· ≠ '\n')).length := by
  have hcs : front ++ c :: cs = (front ++ c :: cs.takeWhile (· ≠ '\n')) ++ cs.dropWhile (· ≠ '\n') := by
    simp
  refine ⟨?_, ?_, ?_⟩
  · simp only [opensComment, Bool.or_eq_true, decide_eq_true_eq] at hc
    simpa using hc
  · intro k hk hlt
    rw [hcs, List.getElem?_append_left hlt, List.getElem?_append_right hk]
    intro hfeed
    rcases List.mem_cons.1 (List.mem_of_getElem? hfeed) with hfeed | hfeed
    · rw [← hfeed] at hc
      cases hc
    · simpa using List.mem_takeWhile_imp hfeed
  · cases hd : cs.dropWhile (· ≠ '\n') with
    | nil =>
      left
      rw [hcs, hd, List.append_nil]
    | cons d ds =>
      right
      have havoids := avoids_dropWhile (· ≠ '\n') cs
      rw [hd, avoids_cons] at havoids
      have hfeed : d = '\n' := by simpa using havoids
      rw [hcs, hd, List.getElem?_append_right (Nat.le_refl _), Nat.sub_self, hfeed]
      rfl

/-- The tokens of a text behind `front`, with their marks. -/
theorem marked_of_tokensFrom {index : Nat} {p : Position} {tokens : List Token}
    (h : tokensFrom file start index p cs = .ok tokens) (front : List Char)
    (hp : Position.start.advance front = p) :
    ∃ marks eof stop, tokens = marks.map Mark.token ++ [eof] ∧ eof.lexeme = .eof ∧
      eof.line = Text.lineAt (front ++ cs) stop ∧ eof.column = Text.columnAt (front ++ cs) stop ∧
      Marked file (front ++ cs) front.length marks stop ∧ EndsAt start (front ++ cs) marks stop := by
  fun_induction tokensFrom file start index p cs generalizing front tokens with
  | case1 start index p =>
    cases h
    have hplace := Position.start_advance_take front front.length
    rw [List.take_length, hp] at hplace
    rw [List.append_nil]
    exact ⟨[], _, front.length, rfl, rfl, by rw [hplace], by rw [hplace], .nil (Nat.le_refl _), .text rfl⟩
  | case2 start index p c cs hc ih =>
    have hfront : front ++ c :: cs = (front ++ [c]) ++ cs := by simp
    obtain ⟨marks, eof, stop, htokens, heof, hline, hcolumn, hmarked, hend⟩ :=
      ih h (front ++ [c]) (by rw [Position.advance_append, hp]; rfl)
    rw [← hfront] at hline hcolumn hmarked hend
    rw [List.length_append, List.length_singleton] at hmarked
    exact ⟨marks, eof, stop, htokens, heof, hline, hcolumn, hmarked.blank (by simp) hc, hend⟩
  | case3 start index p c cs _ hc ih =>
    have hfront : front ++ c :: cs =
        (front ++ c :: cs.takeWhile (· ≠ '\n')) ++ cs.dropWhile (· ≠ '\n') := by simp
    obtain ⟨marks, eof, stop, htokens, heof, hline, hcolumn, hmarked, hend⟩ :=
      ih h (front ++ c :: cs.takeWhile (· ≠ '\n')) (by rw [Position.advance_append, hp])
    rw [← hfront] at hline hcolumn hmarked hend
    refine ⟨marks, eof, stop, htokens, heof, hline, hcolumn, ?_, hend⟩
    exact hmarked.comment (by simp) (comment_of_opensComment hc front cs)
  | case4 => cases h
  | case5 start index p c cs _ _ s hscan token q =>
    rename_i hstop
    cases h
    have hsplit := (scan_text_append_rest hscan).1
    have hplace := Position.start_advance_take (front ++ c :: cs) (front ++ s.text).length
    rw [← hsplit, ← List.append_assoc, List.take_left, Position.advance_append, hp, List.append_assoc, hsplit] at hplace
    have hbound : (front ++ s.text).length ≤ (front ++ c :: cs).length := by
      rw [← hsplit, List.length_append, List.length_append, List.length_append]
      omega
    obtain ⟨rfl, hlexeme⟩ : start = true ∧ s.lexeme = .directive .stop := by simpa using hstop
    refine ⟨[⟨token, front.length, (front ++ s.text).length⟩], _, (front ++ s.text).length, rfl, rfl,
      congrArg Position.line hplace, congrArg Position.column hplace, ?_, ?_⟩
    · exact Marked.cons (m := ⟨token, front.length, (front ++ s.text).length⟩) (.nil hbound)
        (fits_of_scan hscan hp file index)
    · exact .directive (List.nil_append _).symm hlexeme rfl rfl
  | case6 start index p c cs _ _ s hscan token q hstop =>
    rename_i ih
    have hsplit := (scan_text_append_rest hscan).1
    have hfront : front ++ c :: cs = (front ++ s.text) ++ s.rest := by rw [← hsplit, List.append_assoc]
    rcases hr : tokensFrom file (startsAfter start s.lexeme) (index + 1) q s.rest with e | rest
    · rw [hr] at h
      cases h
    · rw [hr] at h
      cases h
      obtain ⟨marks, eof, stop, rfl, heof, hline, hcolumn, hmarked, hend⟩ :=
        ih hr (front ++ s.text) (by rw [Position.advance_append, hp])
      rw [← hfront] at hline hcolumn hmarked hend
      refine ⟨⟨token, front.length, (front ++ s.text).length⟩ :: marks, eof, stop, rfl, heof, hline, hcolumn, ?_, ?_⟩
      · exact Marked.cons (m := ⟨token, front.length, (front ++ s.text).length⟩) hmarked
          (fits_of_scan hscan hp file index)
      · exact EndsAt.cons (m := ⟨token, front.length, (front ++ s.text).length⟩) hend

end Lexer

/-- The tokens in front of the end mark stand for stretches of the source that follow each other.  A token has the line
and the column of its first character and is what its text is read as alone, and only blanks and comments lie between
the stretches.  The end mark stands at the end of the source, or behind an `end` that starts a statement. -/
theorem tokens_mark_their_places {source file : String} {tokens : List Token}
    (h : tokenize source file = .ok tokens) :
    ∃ (marks : List Mark) (eof : Token) (stop : Nat),
      tokens = marks.map Mark.token ++ [eof] ∧ eof.lexeme = .eof ∧ stop ≤ source.toList.length ∧
      (∀ m ∈ marks, m.Fits file source.toList ∧ m.stop ≤ stop) ∧
      marks.Pairwise (fun m m' => m.stop ≤ m'.start) ∧
      (∀ i < stop, Free marks i → Skipped source.toList marks 0 i) ∧
      eof.line = Text.lineAt source.toList stop ∧ eof.column = Text.columnAt source.toList stop ∧
      (stop = source.toList.length ∨
        ∃ front labels m, marks = front ++ labels ++ [m] ∧ (∀ l ∈ front.getLast?, l.token.lexeme = .newline) ∧
          (∀ l ∈ labels, l.token.kind = .label) ∧ m.token.lexeme = .directive .stop ∧ m.stop = stop) := by
  obtain ⟨marks, eof, stop, htokens, heof, hline, hcolumn, hmarked, hend⟩ :=
    marked_of_tokensFrom (tokensFrom_of_tokenize h) [] rfl
  refine ⟨marks, eof, stop, htokens, heof, hmarked.bounds.2, ?_, hmarked.apart, ?_, hline, hcolumn, ?_⟩
  · exact fun m hm => ⟨hmarked.fits m hm, (hmarked.within m hm).2⟩
  · exact fun i hi hfree => hmarked.skipped i (Nat.zero_le i) hi hfree
  · cases hend with
    | text hstop => exact .inl hstop
    | @directive front m hmarks hm hstop hstart =>
      obtain ⟨before, labels, hsplit, hlabels, hbefore⟩ := labels_of_startsBehind hstart
      obtain ⟨before, labels, rfl, rfl, rfl⟩ := List.map_eq_append_iff.1 hsplit
      refine .inr ⟨before, labels, m, hmarks, fun l hl => ?_, fun l hl => ?_, hm, hstop⟩
      · rcases hbefore with ⟨hnil, -⟩ | ⟨t, ht, hnewline⟩
        · rw [List.map_eq_nil_iff.1 hnil] at hl
          cases hl
        · rw [List.getLast?_map, Option.mem_def.1 hl] at ht
          cases ht
          exact hnewline
      · exact hlabels _ (List.mem_map_of_mem hl)

/-- A source with comments, a carriage return, and text behind its end. -/
private def remarked : String :=
  "go:fcb \"a;\"\t* x\r\n; y\n p: End?"

theorem tokens_mark_their_places_remarked :
    ∃ (marks : List Mark) (eof : Token) (stop : Nat),
      tokenize remarked "main.asm" = .ok (marks.map Mark.token ++ [eof]) ∧
      marks.map (fun m => (m.token.lexeme, m.token.line, m.token.column)) =
        [(.label "go", 1, 1), (.directive .fcb, 1, 4), (.text "a;", 1, 8), (.newline, 1, 17), (.newline, 2, 4),
          (.label "p", 3, 2), (.directive .stop, 3, 5)] ∧
      (eof.line, eof.column) = (3, 8) ∧ (∀ m ∈ marks, m.Fits "main.asm" remarked.toList) ∧
      marks.Pairwise (fun m m' => m.stop ≤ m'.start) ∧
      ∀ i < stop, Free marks i → Skipped remarked.toList marks 0 i := by
  let tokens := (tokenize remarked "main.asm").toOption.getD []
  have h : tokenize remarked "main.asm" = .ok tokens := tokenize_eq_ok (by decide +kernel)
  have hplaces : tokens.map (fun t => (t.lexeme, t.line, t.column)) =
      [(.label "go", 1, 1), (.directive .fcb, 1, 4), (.text "a;", 1, 8), (.newline, 1, 17), (.newline, 2, 4),
        (.label "p", 3, 2), (.directive .stop, 3, 5)] ++ [(.eof, 3, 8)] := by decide +kernel
  obtain ⟨marks, eof, stop, htokens, -, -, hfits, hapart, hskipped, -⟩ := tokens_mark_their_places h
  rw [htokens, List.map_append, List.map_map] at hplaces
  obtain ⟨hmarks, heof⟩ := List.append_inj' hplaces rfl
  refine ⟨marks, eof, stop, by rw [h, htokens], hmarks, ?_, fun m hm => (hfits m hm).1, hapart, hskipped⟩
  exact congrArg Prod.snd (List.cons.inj heof).1

end Mc6809
