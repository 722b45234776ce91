import Mc6809.Proofs.Line
import Mc6809.Proofs.Lexing.Scan

/-!
# The lexemes of a text

`Lexes` tells which lexemes a text is made of, whatever their places are (`lexes_of_tokensFrom`,
`tokensFrom_of_lexes`).  Between two lexemes, and at the start and the end of a line, the lexemes fall into those in
front of the place and those behind it (`Boundary.parts`, `Lexes.parts`), unless the program has ended by then.  Those
in front stay the same when the text behind is replaced (`Leads.lexes`).
-/

namespace Mc6809.Lexer

/-- The lexemes of a text, of which the first one starts a statement or does not. -/
inductive Lexes : Bool → List Char → List Lexeme → Prop
  | eof (start : Bool) : Lexes start [] [.eof]
  | skip {start : Bool} {c : Char} {cs : List Char} {ls : List Lexeme} (hc : isSkipped c = true)
      (h : Lexes start cs ls) : Lexes start (c :: cs) ls
  | comment {start : Bool} {c : Char} {cs : List Char} {ls : List Lexeme} (hc : opensComment c = true)
      (h : Lexes start (cs.dropWhile (· ≠ '\n')) ls) : Lexes start (c :: cs) ls
  | stop {c : Char} {cs : List Char} {s : Scanned} (h : scan c cs = .ok s) (hs : s.lexeme = .directive .stop) :
      Lexes true (c :: cs) [.directive .stop, .eof]
  | next {start : Bool} {c : Char} {cs : List Char} {s : Scanned} {ls : List Lexeme} (h : scan c cs = .ok s)
      (hs : (start && s.lexeme = .directive .stop) = false) (hn : Lexes (startsAfter start s.lexeme) s.rest ls) :
      Lexes start (c :: cs) (s.lexeme :: ls)

private theorem isSkipped_of_opensComment {c : Char} (h : opensComment c = true) : isSkipped c = false := by
  simp only [opensComment, Bool.or_eq_true, decide_eq_true_eq] at h
  rcases h with rfl | rfl <;> decide

/-- A line feed is a line break, and a statement starts behind it. -/
theorem lexes_feed {start : Bool} {cs : List Char} {ls : List Lexeme} :
    Lexes start ('\n' :: cs) ls ↔ ∃ ls', ls = .newline :: ls' ∧ Lexes true cs ls' := by
  have hscan : scan '\n' cs = .ok ⟨.newline, ['\n'], cs⟩ := Scans.scan_eq (.sign rfl (absurd rfl ·))
  constructor
  · intro h
    cases h with
    | skip hc => cases hc
    | comment hc => cases hc
    | stop hs hl =>
      cases hscan.symm.trans hs
      cases hl
    | next hs _ h =>
      cases hscan.symm.trans hs
      exact ⟨_, rfl, h⟩
  · rintro ⟨ls', rfl, h⟩
    exact .next hscan (by cases start <;> rfl) h

/-! ### Lexemes and tokens -/

/-- A token without its place in the source. -/
def erase (t : Token) : Token :=
  { t with line := 0, column := 0 }

/-- Tokens without places that have the given lexemes and are numbered from `index` on. -/
def bare (file : String) (index : Nat) : List Lexeme → List Token
  | [] => []
  | l :: ls => ⟨l, index, file, 0, 0⟩ :: bare file (index + 1) ls

theorem map_lexeme_bare (file : String) (index : Nat) (ls : List Lexeme) :
    (bare file index ls).map Token.lexeme = ls := by
  induction ls generalizing index with
  | nil => rfl
  | cons l ls ih => simp [bare, ih]

theorem bare_append (file : String) (index : Nat) (ls ls' : List Lexeme) :
    bare file index (ls ++ ls') = bare file index ls ++ bare file (index + ls.length) ls' := by
  induction ls generalizing index with
  | nil => rfl
  | cons l ls ih => simp [bare, ih, Nat.add_comm, Nat.add_left_comm]

section Tokens

variable {file : String} {start : Bool} {cs : List Char} {ls : List Lexeme} {tokens : List Token}

/-- The tokens of a text are its lexemes, with places. -/
theorem lexes_of_tokensFrom {index : Nat} {p : Position} (h : tokensFrom file start index p cs = .ok tokens) :
    ∃ ls, Lexes start cs ls ∧ tokens.map erase = bare file index ls := by
  fun_induction tokensFrom file start index p cs generalizing tokens with
  | case1 =>
    cases h
    exact ⟨_, .eof _, rfl⟩
  | case2 start index p c cs hc ih =>
    obtain ⟨ls, hls, htokens⟩ := ih h
    exact ⟨ls, .skip hc hls, htokens⟩
  | case3 start index p c cs _ hc ih =>
    obtain ⟨ls, hls, htokens⟩ := ih h
    exact ⟨ls, .comment hc hls, htokens⟩
  | case4 => cases h
  | case5 start index p c cs _ _ s hscan token q =>
    rename_i hstop
    cases h
    obtain ⟨rfl, hlexeme⟩ : start = true ∧ s.lexeme = .directive .stop := by simpa using hstop
    exact ⟨_, .stop hscan hlexeme, by simp [bare, erase, token, hlexeme]⟩
  | case6 start index p c cs _ _ s hscan token q hstop =>
    rename_i ih
    rcases hr : tokensFrom file (startsAfter start s.lexeme) (index + 1) q s.rest with e | rest
    · rw [hr] at h
      cases h
    · rw [hr] at h
      cases h
      obtain ⟨ls, hls, htokens⟩ := ih hr
      exact ⟨_, .next hscan (Bool.eq_false_iff.2 hstop) hls, by simp [bare, erase, token, ← htokens]⟩

theorem tokensFrom_of_scan {c : Char} {s : Scanned} (h : scan c cs = .ok s) (file : String) (start : Bool)
    (index : Nat) (p : Position) : tokensFrom file start index p (c :: cs) =
      if start && s.lexeme = .directive .stop then
        .ok [⟨s.lexeme, index, file, p.line, p.column⟩,
          ⟨.eof, index + 1, file, (p.advance s.text).line, (p.advance s.text).column⟩]
      else (tokensFrom file (startsAfter start s.lexeme) (index + 1) (p.advance s.text) s.rest).map
        (⟨s.lexeme, index, file, p.line, p.column⟩ :: ·) := by
  obtain ⟨hskip, hcomment⟩ := not_gap_of_scan h
  rw [tokensFrom, if_neg (by simp [hskip]), if_neg (by simp [hcomment])]
  split
  · next e he =>
    rw [h] at he
    cases he
  · next s' hs' =>
    rw [h] at hs'
    cases hs'
    rfl

theorem tokensFrom_of_refusal {c : Char} {r : Refusal} (hskip : isSkipped c = false)
    (hcomment : opensComment c = false) (h : scan c cs = .error r) (file : String) (start : Bool) (index : Nat)
    (p : Position) :
    tokensFrom file start index p (c :: cs) = .error (r.problem, p.advance r.text) := by
  rw [tokensFrom, if_neg (by simp [hskip]), if_neg (by simp [hcomment])]
  split
  · next r' hr' =>
    rw [h] at hr'
    cases hr'
    rfl
  · next s hs =>
    rw [h] at hs
    cases hs

theorem tokensFrom_of_lexes (h : Lexes start cs ls) (file : String) (index : Nat) (p : Position) :
    ∃ tokens, tokensFrom file start index p cs = .ok tokens ∧ tokens.map erase = bare file index ls := by
  induction h generalizing index p with
  | eof start =>
    rw [tokensFrom]
    exact ⟨_, rfl, rfl⟩
  | skip hc _ ih =>
    rw [tokensFrom, if_pos hc]
    exact ih ..
  | @comment start c cs ls hc _ ih =>
    rw [tokensFrom, if_neg (by simp [isSkipped_of_opensComment hc]), if_pos hc]
    exact ih ..
  | stop hscan hs =>
    rw [tokensFrom_of_scan hscan, if_pos (by simp [hs])]
    exact ⟨_, rfl, by simp [bare, erase, hs]⟩
  | next hscan hs _ ih =>
    obtain ⟨tokens, ht, htokens⟩ := ih (index + 1) (p.advance _)
    rw [tokensFrom_of_scan hscan, if_neg (Bool.eq_false_iff.1 hs), ht]
    exact ⟨_, rfl, by simp [bare, erase, ← htokens]⟩

/-- A text has one list of lexemes. -/
theorem Lexes.unique {ls' : List Lexeme} (h : Lexes start cs ls) (h' : Lexes start cs ls') : ls = ls' := by
  obtain ⟨tokens, ht, htokens⟩ := tokensFrom_of_lexes h "" 0 .start
  obtain ⟨tokens', ht', htokens'⟩ := tokensFrom_of_lexes h' "" 0 .start
  rw [ht] at ht'
  cases ht'
  rw [← map_lexeme_bare "" 0 ls, ← htokens, htokens', map_lexeme_bare]

end Tokens

/-! ### Boundaries -/

/-- A text that is empty or starts with a line feed. -/
abbrev AtLineEnd (back : List Char) : Prop :=
  Avoids (· ≠ '\n') back

/-- A text that is empty or ends with a line feed. -/
def AtLineStart (front : List Char) : Prop :=
  front = [] ∨ front.getLast? = some '\n'

/-- A place between lexemes, between the text in front of it and that behind it. -/
inductive Boundary : List Char → List Char → Prop
  | here (back : List Char) : Boundary [] back
  | skip {c : Char} {front back : List Char} (hc : isSkipped c = true) (h : Boundary front back) :
      Boundary (c :: front) back
  | comment {c : Char} {text front back : List Char} (hc : opensComment c = true) (ht : '\n' ∉ text)
      (he : AtLineEnd (front ++ back)) (h : Boundary front back) : Boundary (c :: text ++ front) back
  | lexeme {c : Char} {text front back : List Char} {l : Lexeme}
      (hs : scan c (text ++ (front ++ back)) = .ok ⟨l, c :: text, front ++ back⟩) (h : Boundary front back) :
      Boundary (c :: text ++ front) back

/-- The lexemes of a text up to a boundary that has `back` behind it.  The flags tell whether a statement starts at
the text and at the boundary. -/
inductive Leads (back : List Char) : Bool → List Char → List Lexeme → Bool → Prop
  | here (start : Bool) : Leads back start [] [] start
  | skip {start after : Bool} {c : Char} {front : List Char} {ls : List Lexeme} (hc : isSkipped c = true)
      (h : Leads back start front ls after) : Leads back start (c :: front) ls after
  | comment {start after : Bool} {c : Char} {text front : List Char} {ls : List Lexeme} (hc : opensComment c = true)
      (ht : '\n' ∉ text) (he : AtLineEnd (front ++ back)) (h : Leads back start front ls after) :
      Leads back start (c :: text ++ front) ls after
  | next {start after : Bool} {c : Char} {text front : List Char} {l : Lexeme} {ls : List Lexeme}
      (hs : scan c (text ++ (front ++ back)) = .ok ⟨l, c :: text, front ++ back⟩)
      (hl : (start && l = .directive .stop) = false) (h : Leads back (startsAfter start l) front ls after) :
      Leads back start (c :: text ++ front) (l :: ls) after

/-- The lexemes of a text, seen from a place in it.  Either the place is behind the end of the program, and what follows
does not matter, or they are those up to the place and those behind it. -/
inductive Parts (start : Bool) (front back : List Char) : List Lexeme → Prop
  | past {ls : List Lexeme} (hne : front ≠ []) (h : ∀ back', Replaces back back' → Lexes start (front ++ back') ls) :
      Parts start front back ls
  | split {after : Bool} {ls ls' : List Lexeme} (h : Leads back start front ls after) (h' : Lexes after back ls') :
      Parts start front back (ls ++ ls')

section Places

variable {start after : Bool} {c : Char} {cs text front back back' : List Char} {l : Lexeme} {ls ls' : List Lexeme}

theorem dropWhile_comment (ht : '\n' ∉ text) (he : AtLineEnd back) :
    (text ++ back).dropWhile (· ≠ '\n') = back := by
  refine (takeWhile_append_of_avoids (fun c hc => decide_eq_true ?_) he).2
  rintro rfl
  exact ht hc

theorem tokensFrom_of_comment (hc : opensComment c = true) (ht : '\n' ∉ text) (he : AtLineEnd back) (file : String)
    (start : Bool) (index : Nat) (p : Position) : tokensFrom file start index p (c :: (text ++ back)) =
      tokensFrom file start index (p.advance (c :: text)) back := by
  have htext : ∀ d ∈ text, decide (d ≠ '\n') = true := fun d hd => decide_eq_true fun h => ht (h ▸ hd)
  obtain ⟨htake, hdrop⟩ := takeWhile_append_of_avoids htext he
  rw [tokensFrom, if_neg (by simp [isSkipped_of_opensComment hc]), if_pos hc, htake, hdrop]

private theorem AtLineEnd.append (h : AtLineEnd (front ++ back)) (hne : front ≠ []) (back' : List Char) :
    AtLineEnd (front ++ back') := by
  cases front with
  | nil => exact absurd rfl hne
  | cons c front => exact h

private theorem scan_replace (h : scan c (text ++ back) = .ok ⟨l, c :: text, back⟩) (hr : Replaces back back') :
    scan c (text ++ back') = .ok ⟨l, c :: text, back'⟩ := by
  obtain ⟨text', htext, hs⟩ := scan_append h hr
  cases htext
  exact hs

namespace Parts

private theorem skip (hc : isSkipped c = true) (h : Parts start front back ls) : Parts start (c :: front) back ls := by
  cases h with
  | past hne h => exact .past (List.cons_ne_nil _ _) fun back' hr => .skip hc (h back' hr)
  | split h h' => exact .split (.skip hc h) h'

private theorem comment (hc : opensComment c = true) (ht : '\n' ∉ text) (he : AtLineEnd (front ++ back))
    (h : Parts start front back ls) : Parts start (c :: text ++ front) back ls := by
  cases h with
  | past hne h =>
    refine .past (List.cons_ne_nil _ _) fun back' hr => ?_
    rw [List.append_assoc, List.cons_append]
    refine .comment hc ?_
    rw [dropWhile_comment ht (he.append hne back')]
    exact h back' hr
  | split h h' => exact .split (.comment hc ht he h) h'

private theorem next (hs : scan c (text ++ (front ++ back)) = .ok ⟨l, c :: text, front ++ back⟩)
    (hl : (start && l = .directive .stop) = false) (h : Parts (startsAfter start l) front back ls) :
    Parts start (c :: text ++ front) back (l :: ls) := by
  cases h with
  | past hne h =>
    refine .past (List.cons_ne_nil _ _) fun back' hr => ?_
    rw [List.append_assoc, List.cons_append]
    exact .next (scan_replace hs (hr.append front)) hl (h back' hr)
  | split h h' => exact .split (.next hs hl h) h'

private theorem stop (hs : scan c (text ++ (front ++ back)) = .ok ⟨.directive .stop, c :: text, front ++ back⟩) :
    Parts true (c :: text ++ front) back [.directive .stop, .eof] := by
  refine .past (List.cons_ne_nil _ _) fun back' hr => ?_
  rw [List.append_assoc, List.cons_append]
  exact .stop (scan_replace hs (hr.append front)) rfl

end Parts

theorem Boundary.parts (hb : Boundary front back) (h : Lexes start (front ++ back) ls) :
    Parts start front back ls := by
  induction hb generalizing start ls with
  | here back => exact .split (.here start) h
  | skip hc _ ih =>
    cases h with
    | skip _ h => exact .skip hc (ih h)
    | comment hc' => exact absurd hc (by simp [isSkipped_of_opensComment hc'])
    | stop hs => exact absurd hc (by simp [not_gap_of_scan hs])
    | next hs => exact absurd hc (by simp [not_gap_of_scan hs])
  | comment hc ht he _ ih =>
    rw [List.append_assoc, List.cons_append] at h
    cases h with
    | skip hc' => exact absurd hc' (by simp [isSkipped_of_opensComment hc])
    | comment _ h =>
      rw [dropWhile_comment ht he] at h
      exact .comment hc ht he (ih h)
    | stop hs => exact absurd hc (by simp [not_gap_of_scan hs])
    | next hs => exact absurd hc (by simp [not_gap_of_scan hs])
  | lexeme hs _ ih =>
    rw [List.append_assoc, List.cons_append] at h
    cases h with
    | skip hc => exact absurd hc (by simp [not_gap_of_scan hs])
    | comment hc => exact absurd hc (by simp [not_gap_of_scan hs])
    | stop hs' hl =>
      cases hs.symm.trans hs'
      cases hl
      exact .stop hs
    | next hs' hl h =>
      cases hs.symm.trans hs'
      exact .next hs hl (ih h)

/-- A place at the start or the end of a line is not inside of a lexeme. -/
private theorem cut_of_scan {s : Scanned} (h : scan c (front ++ back) = .ok s)
    (hb : AtLineEnd back ∨ AtLineStart (c :: front)) :
    ∃ text rest, front = text ++ rest ∧ s = ⟨s.lexeme, c :: text, rest ++ back⟩ := by
  obtain ⟨text, htext, happend⟩ := exists_text_of_scan h
  suffices ∃ rest, front = text ++ rest ∧ s.rest = rest ++ back by
    obtain ⟨rest, hfront, hrest⟩ := this
    exact ⟨text, rest, hfront, by rw [← htext, ← hrest]⟩
  rcases List.append_eq_append_iff.1 happend with ⟨mid, rfl, hback⟩ | ⟨rest, hfront, hrest⟩
  · cases mid with
    | nil => exact ⟨[], by simp, hback.symm⟩
    | cons d mid =>
      -- The place would be in front of `d`, and so there is a line feed on one side of it.
      have hfeed : '\n' ∈ s.text := by
        rw [htext, ← List.cons_append, List.mem_append]
        rcases hb with hb | hb
        · rw [hback] at hb
          have hd : d = '\n' := by simpa using avoids_cons.1 hb
          exact .inr (by simp [hd])
        · exact .inl (List.mem_of_getLast? (hb.resolve_left (List.cons_ne_nil _ _)))
      obtain ⟨rfl, -⟩ := newline_of_scan h hfeed
      simp at htext
  · exact ⟨rest, hfront, hrest⟩

private theorem feed_of_getLast? {t : List Char} (h : (c :: t ++ front).getLast? = some '\n') :
    front = [] ∧ '\n' ∈ c :: t ∨ front.getLast? = some '\n' := by
  rcases hf : front.getLast? with _ | d
  · obtain rfl := List.getLast?_eq_none_iff.1 hf
    rw [List.append_nil] at h
    exact .inl ⟨rfl, List.mem_of_getLast? h⟩
  · rw [List.getLast?_append, hf] at h
    exact .inr h

private theorem AtLineStart.of_cons {t : List Char} (h : AtLineStart (c :: t ++ front)) : AtLineStart front := by
  rcases feed_of_getLast? (h.resolve_left (List.cons_ne_nil _ _)) with ⟨hfront, -⟩ | hfront
  · exact .inl hfront
  · exact .inr hfront

/-- A place at the start or the end of a line is not inside of a comment, either. -/
private theorem cut_of_comment (hc : opensComment c = true) (hb : AtLineEnd back ∨ AtLineStart (c :: front)) :
    ∃ text rest, front = text ++ rest ∧ '\n' ∉ text ∧ AtLineEnd (rest ++ back) := by
  have htext : '\n' ∉ front.takeWhile (· ≠ '\n') := fun h => absurd (List.mem_takeWhile_imp h) (by decide)
  refine ⟨front.takeWhile (· ≠ '\n'), front.dropWhile (· ≠ '\n'), by simp, htext, ?_⟩
  rcases hrest : front.dropWhile (· ≠ '\n') with _ | ⟨d, rest⟩
  · have hfront := List.takeWhile_append_dropWhile (p := (· ≠ '\n')) (l := front)
    rw [hrest, List.append_nil] at hfront
    rw [hfront] at htext
    rcases hb with hb | hb
    · exact hb
    · -- The last character of the comment so far would be a line feed.
      rcases List.mem_cons.1 (List.mem_of_getLast? (hb.resolve_left (List.cons_ne_nil _ _))) with rfl | hfeed
      · cases hc
      · exact absurd hfeed htext
  · have hd := avoids_dropWhile (· ≠ '\n') front
    rw [hrest] at hd
    exact hd

/-- A place at the start or the end of a line parts the lexemes, too. -/
theorem Lexes.parts (h : Lexes start (front ++ back) ls) (hb : AtLineEnd back ∨ AtLineStart front) :
    Parts start front back ls := by
  generalize hcs : front ++ back = cs at h
  induction h generalizing front with
  | eof start =>
    obtain ⟨rfl, rfl⟩ := List.append_eq_nil_iff.1 hcs
    exact .split (.here start) (.eof start)
  | skip hc h ih =>
    cases front with
    | nil =>
      cases hcs
      exact .split (.here _) (.skip hc h)
    | cons d front =>
      cases hcs
      exact .skip hc (ih (hb.imp_right (AtLineStart.of_cons (t := []))) rfl)
  | comment hc h ih =>
    cases front with
    | nil =>
      cases hcs
      exact .split (.here _) (.comment hc h)
    | cons d front =>
      rw [List.cons_append] at hcs
      obtain ⟨rfl, rfl⟩ := List.cons.inj hcs
      obtain ⟨text, rest, rfl, htext, he⟩ := cut_of_comment hc hb
      have hrest := @ih rest (hb.imp_right AtLineStart.of_cons)
      rw [List.append_assoc, dropWhile_comment htext he] at hrest
      exact .comment hc htext he (hrest rfl)
  | @stop c cs s hs hl =>
    cases front with
    | nil =>
      cases hcs
      exact .split (.here _) (.stop hs hl)
    | cons d front =>
      rw [List.cons_append] at hcs
      obtain ⟨rfl, rfl⟩ := List.cons.inj hcs
      obtain ⟨text, rest, rfl, hcut⟩ := cut_of_scan hs hb
      rw [hcut, hl, List.append_assoc] at hs
      exact .stop hs
  | @next start c cs s ls hs hl h ih =>
    cases front with
    | nil =>
      cases hcs
      exact .split (.here _) (.next hs hl h)
    | cons d front =>
      rw [List.cons_append] at hcs
      obtain ⟨rfl, rfl⟩ := List.cons.inj hcs
      obtain ⟨text, rest, rfl, hcut⟩ := cut_of_scan hs hb
      rw [hcut, List.append_assoc] at hs
      refine .next hs hl (ih (hb.imp_right AtLineStart.of_cons) ?_)
      rw [hcut]

/-- The lexemes of a text stay the same up to a boundary when the text behind it is replaced.  If there is a comment
right before the boundary it goes on to the end of the line. -/
theorem Leads.lexes (h : Leads back start front ls after) (hr : Replaces back back') (hl : Lexes after back' ls')
    (hend : AtLineEnd back → Lexes after (back'.dropWhile (· ≠ '\n')) ls') :
    Lexes start (front ++ back') (ls ++ ls') := by
  induction h with
  | here start => exact hl
  | skip hc _ ih => exact .skip hc (ih hl hend)
  | @comment start after c text front ls hc ht he h ih =>
    rw [List.append_assoc, List.cons_append]
    refine .comment hc ?_
    cases h with
    | here =>
      have htext : ∀ d ∈ text, decide (d ≠ '\n') = true := by
        rintro d hd
        exact decide_eq_true fun h => ht (h ▸ hd)
      rw [List.nil_append, List.dropWhile_append_of_pos htext]
      exact hend he
    | _ =>
      rw [dropWhile_comment ht (he.append (List.cons_ne_nil _ _) back')]
      exact ih hl hend
  | next hs hstop _ ih =>
    rw [List.append_assoc, List.cons_append]
    exact .next (scan_replace hs (hr.append _)) hstop (ih hl hend)

theorem Leads.ne_eof (h : Leads back start front ls after) : .eof ∉ ls := by
  induction h with
  | here => exact List.not_mem_nil
  | skip _ _ ih => exact ih
  | comment _ _ _ _ ih => exact ih
  | next hs _ _ ih =>
    rw [List.mem_cons, not_or]
    exact ⟨(lexeme_ne_eof_of_scan hs).symm, ih⟩

/-- After a line feed a statement starts. -/
theorem Leads.newline (h : Leads back start front ls after) (hf : front.getLast? = some '\n') :
    ls.getLast? = some .newline ∧ after = true := by
  induction h with
  | here => cases hf
  | skip hc _ ih =>
    rcases feed_of_getLast? (t := []) hf with ⟨rfl, hfeed⟩ | hf
    · rcases List.mem_singleton.1 hfeed
      cases hc
    · exact ih hf
  | comment hc ht _ _ ih =>
    rcases feed_of_getLast? hf with ⟨rfl, hfeed⟩ | hf
    · rcases List.mem_cons.1 hfeed with rfl | hfeed
      · cases hc
      · exact absurd hfeed ht
    · exact ih hf
  | next hs _ h ih =>
    rcases feed_of_getLast? hf with ⟨rfl, hfeed⟩ | hf
    · obtain ⟨hnew, -⟩ := newline_of_scan hs hfeed
      cases hnew
      cases h
      exact ⟨rfl, rfl⟩
    · obtain ⟨hlast, hafter⟩ := ih hf
      exact ⟨by simp [List.getLast?_cons, hlast], hafter⟩

/-- Lexemes without a line break stay on their line. -/
theorem Leads.feed_notMem (h : Leads back start front ls after) (hls : .newline ∉ ls) : '\n' ∉ front := by
  induction h with
  | here => exact List.not_mem_nil
  | skip hc _ ih =>
    rw [List.mem_cons, not_or]
    refine ⟨?_, ih hls⟩
    rintro rfl
    cases hc
  | comment hc ht _ _ ih =>
    rw [List.mem_append, List.mem_cons, not_or, not_or]
    refine ⟨⟨?_, ht⟩, ih hls⟩
    rintro rfl
    cases hc
  | next hs _ _ ih =>
    rw [List.mem_cons, not_or] at hls
    rw [List.mem_append, not_or]
    exact ⟨fun hfeed => hls.1 (congrArg Scanned.lexeme (newline_of_scan hs hfeed).1).symm, ih hls.2⟩

/-- A lexeme that is read from its characters alone is read in front of a separator, too. -/
theorem Leads.alone (hs : scan c text = .ok ⟨l, c :: text, []⟩)
    (hr : ∀ d ∈ (front ++ back).head?, isSeparator d = true) (hl : l ≠ .directive .stop)
    (h : Leads back (startsAfter start l) front ls after) :
    Leads back start (c :: text ++ front) (l :: ls) after := by
  have halone : scan c (text ++ []) = .ok ⟨l, c :: text, []⟩ := by rwa [List.append_nil]
  exact .next (scan_replace halone (.inr hr)) (by simp [hl]) h

theorem Leads.sign (hs : sign? c = some l) (hd : double? c ≠ none → Avoids (· = c) (front ++ back))
    (hl : l ≠ .directive .stop) (h : Leads back (startsAfter start l) front ls after) :
    Leads back start (c :: front) (l :: ls) after := by
  have hscan : scan c ([] ++ (front ++ back)) = .ok ⟨l, [c], front ++ back⟩ := Scans.scan_eq (.sign hs hd)
  have hnext : Leads back start (c :: [] ++ front) (l :: ls) after := .next hscan (by simp [hl]) h
  exact hnext

end Places

end Mc6809.Lexer
