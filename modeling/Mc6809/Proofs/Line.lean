import Mc6809.Proofs.Lexing.Scan
import Mc6809.Statement.Reader

/-!
# Tokens and lines in order

A token has the number of its place in the source (`tokenize_getElem?`), and the end mark stands at the end and
nowhere else (`tokenize_eof`).  Lines take their tokens from left to right, so no two lines have a token in common
(`Line.split_apart`), and each line goes up to the next line break or to the end mark (`Line.next_of_split`).
-/

namespace Mc6809

/-- Tokens are numbered in increasing order. -/
def Numbered (ts : List Token) : Prop :=
  ts.Pairwise fun t u => t.index < u.index

namespace Lexer

private theorem tokensFrom_getElem? {file : String} {start : Bool} {index : Nat} {p : Position} {cs : List Char}
    {ts : List Token} (h : tokensFrom file start index p cs = .ok ts) :
    ∀ (k : Nat) (t : Token), ts[k]? = some t → t.index = index + k := by
  fun_induction tokensFrom file start index p cs generalizing ts with
  | case1 =>
    cases h
    intro k t hk
    cases k with
    | zero =>
      cases hk
      rfl
    | succ k => cases hk
  | case2 _ _ _ _ _ _ ih => exact ih h
  | case3 _ _ _ _ _ _ _ ih => exact ih h
  | case4 => cases h
  | case5 start index p c cs _ _ s _ token =>
    cases h
    intro k t hk
    match k with
    | 0 =>
      cases hk
      rfl
    | 1 =>
      cases hk
      rfl
    | k + 2 => cases hk
  | case6 start index p c cs _ _ s _ token q =>
    rename_i ih
    cases hr : tokensFrom file (startsAfter start s.lexeme) (index + 1) q s.rest with
    | error e =>
      rw [hr] at h
      cases h
    | ok us =>
      rw [hr] at h
      cases h
      intro k t hk
      cases k with
      | zero =>
        cases hk
        rfl
      | succ k =>
        have := ih hr k t hk
        omega

private theorem tokensFrom_eof {file : String} {start : Bool} {index : Nat} {p : Position} {cs : List Char}
    {ts : List Token} (h : tokensFrom file start index p cs = .ok ts) :
    ∃ front stop, ts = front ++ [stop] ∧ stop.lexeme = .eof ∧ ∀ t ∈ front, t.lexeme ≠ .eof := by
  fun_induction tokensFrom file start index p cs generalizing ts with
  | case1 =>
    cases h
    exact ⟨[], _, rfl, rfl, by simp⟩
  | case2 _ _ _ _ _ _ ih => exact ih h
  | case3 _ _ _ _ _ _ _ ih => exact ih h
  | case4 => cases h
  | case5 start index p c cs _ _ s hs token q =>
    cases h
    exact ⟨[token], _, rfl, rfl, by simpa [token] using lexeme_ne_eof_of_scan hs⟩
  | case6 start index p c cs _ _ s hs token q =>
    rename_i ih
    cases hr : tokensFrom file (startsAfter start s.lexeme) (index + 1) q s.rest with
    | error e =>
      rw [hr] at h
      cases h
    | ok us =>
      rw [hr] at h
      cases h
      obtain ⟨front, stop, rfl, hstop, hfront⟩ := ih hr
      refine ⟨token :: front, stop, rfl, hstop, ?_⟩
      intro t ht
      rcases List.mem_cons.1 ht with rfl | ht
      · exact lexeme_ne_eof_of_scan hs
      · exact hfront t ht

end Lexer

section Tokenize

variable {source file : String} {tokens : List Token}

theorem tokensFrom_of_tokenize (h : tokenize source file = .ok tokens) :
    Lexer.tokensFrom file true 0 .start source.toList = .ok tokens := by
  unfold tokenize at h
  cases ht : Lexer.tokensFrom file true 0 .start source.toList with
  | error e =>
    rw [ht] at h
    cases h
  | ok ts =>
    rw [ht] at h
    cases h
    rfl

/-- A token has the number of its place. -/
theorem tokenize_getElem? (h : tokenize source file = .ok tokens) {k : Nat} {t : Token} (hk : tokens[k]? = some t) :
    t.index = k := by
  have := Lexer.tokensFrom_getElem? (tokensFrom_of_tokenize h) k t hk
  omega

/-- The end mark is the last token and no other. -/
theorem tokenize_eof (h : tokenize source file = .ok tokens) :
    ∃ front stop, tokens = front ++ [stop] ∧ stop.lexeme = .eof ∧ ∀ t ∈ front, t.lexeme ≠ .eof :=
  Lexer.tokensFrom_eof (tokensFrom_of_tokenize h)

theorem tokenize_index (h : tokenize source file = .ok tokens) : Numbered tokens := by
  refine List.pairwise_iff_getElem.2 fun i j hi hj hij => ?_
  rw [tokenize_getElem? h (List.getElem?_eq_getElem hi), tokenize_getElem? h (List.getElem?_eq_getElem hj)]
  exact hij

theorem tokenize_eq_ok (h : (tokenize source file).toOption = some tokens) :
    tokenize source file = .ok tokens := by
  cases ht : tokenize source file with
  | error e =>
    rw [ht] at h
    cases h
  | ok ts =>
    rw [ht] at h
    cases h
    rfl

end Tokenize

namespace Line

/-- The tokens of the first line come before those of the second one. -/
def Before (l l' : Line) : Prop :=
  ∀ t ∈ l.body, ∀ t' ∈ l'.body, t.index < t'.index

private theorem mem_of_mem_splitFrom {body ts : List Token} {l : Line} (hl : l ∈ splitFrom body ts) :
    ∀ t ∈ l.body, t ∈ body ++ ts := by
  fun_induction splitFrom body ts with
  | case1 => cases hl
  | case2 body t ts _ ih =>
    intro u hu
    rcases List.mem_cons.1 hl with rfl | hl
    · exact List.mem_append_left _ hu
    · have := ih hl u hu
      exact List.mem_append_right _ (List.mem_cons_of_mem _ (by simpa using this))
  | case3 => cases hl
  | case4 t ts _ _ body _ =>
    intro u hu
    rw [List.mem_singleton] at hl
    subst hl
    exact List.mem_append_left _ hu
  | case5 body t ts _ _ ih =>
    intro u hu
    have := ih hl u hu
    rwa [List.append_assoc] at this

private theorem splitFrom_apart {body ts : List Token} (h : Numbered (body ++ ts)) :
    (splitFrom body ts).Pairwise Before := by
  fun_induction splitFrom body ts with
  | case1 => exact .nil
  | case2 body t ts _ ih =>
    have happ := List.pairwise_append.1 h
    refine List.pairwise_cons.2 ⟨?_, ih (List.pairwise_cons.1 happ.2.1).2⟩
    intro l hl u hu u' hu'
    have hmem := mem_of_mem_splitFrom hl u' hu'
    exact happ.2.2 u hu u' (List.mem_cons_of_mem _ (by simpa using hmem))
  | case3 => exact .nil
  | case4 => exact List.pairwise_singleton ..
  | case5 body t ts _ _ ih => exact ih (by rwa [List.append_assoc])

private theorem stop_of_mem_splitFrom {body ts : List Token} {l : Line} (hl : l ∈ splitFrom body ts) :
    l.stop ∈ ts ∧ (Numbered (body ++ ts) → ∀ t ∈ l.body, t.index < l.stop.index) := by
  fun_induction splitFrom body ts with
  | case1 => cases hl
  | case2 body t ts _ ih =>
    rcases List.mem_cons.1 hl with rfl | hl
    · refine ⟨List.mem_cons_self .., fun h u hu => ?_⟩
      exact (List.pairwise_append.1 h).2.2 u hu t (List.mem_cons_self ..)
    · obtain ⟨hstop, hbefore⟩ := ih hl
      refine ⟨List.mem_cons_of_mem _ hstop, fun h => hbefore ?_⟩
      exact (List.pairwise_cons.1 (List.pairwise_append.1 h).2.1).2
  | case3 => cases hl
  | case4 body t ts =>
    rw [List.mem_singleton] at hl
    subst hl
    refine ⟨List.mem_cons_self .., fun h u hu => ?_⟩
    exact (List.pairwise_append.1 h).2.2 u hu _ (List.mem_cons_self ..)
  | case5 body t ts _ _ ih =>
    obtain ⟨hstop, hbefore⟩ := ih hl
    exact ⟨List.mem_cons_of_mem _ hstop, fun h => hbefore (by rwa [List.append_assoc])⟩

section Split

variable {tokens : List Token} {l : Line}

/-- Each line's tokens come before those of the lines after it. -/
theorem split_apart (h : Numbered tokens) : (split tokens).Pairwise Before :=
  splitFrom_apart h

theorem body_subset (hl : l ∈ split tokens) : ∀ t ∈ l.body, t ∈ tokens :=
  mem_of_mem_splitFrom hl

theorem stop_mem (hl : l ∈ split tokens) : l.stop ∈ tokens :=
  (stop_of_mem_splitFrom hl).1

theorem index_lt_stop (h : Numbered tokens) (hl : l ∈ split tokens) : ∀ t ∈ l.body, t.index < l.stop.index :=
  (stop_of_mem_splitFrom hl).2 h

end Split

theorem splitFrom_newline {body ts : List Token} {t : Token} (h : t.lexeme = .newline) :
    splitFrom body (t :: ts) = ⟨body, t⟩ :: splitFrom [] ts := by
  cases body <;> simp [splitFrom, h]

theorem splitFrom_other {body ts : List Token} {t : Token} (h : t.lexeme ≠ .newline) (he : t.lexeme ≠ .eof) :
    splitFrom body (t :: ts) = splitFrom (body ++ [t]) ts := by
  cases body <;> simp [splitFrom, h, he]

/-- The first line of a source. -/
theorem split_line {body : List Token} {stop : Token}
    (hbody : ∀ t ∈ body, t.lexeme ≠ .newline ∧ t.lexeme ≠ .eof) (hstop : stop.lexeme = .newline) (ts : List Token) :
    split (body ++ stop :: ts) = ⟨body, stop⟩ :: split ts := by
  suffices hfrom : ∀ front, splitFrom front (body ++ stop :: ts) = ⟨front ++ body, stop⟩ :: split ts from hfrom []
  induction body with
  | nil =>
    intro front
    rw [List.nil_append, splitFrom_newline hstop, List.append_nil]
    rfl
  | cons t body ih =>
    intro front
    obtain ⟨hnewline, heof⟩ := hbody t (List.mem_cons_self ..)
    rw [List.cons_append, splitFrom_other hnewline heof, ih fun u hu => hbody u (List.mem_cons_of_mem _ hu),
      List.append_assoc, List.singleton_append]

/-- Tokens that end with a line can be cut into lines by themselves. -/
theorem split_append {ts : List Token} (hlast : ∀ t ∈ ts.getLast?, t.lexeme = .newline)
    (heof : ∀ t ∈ ts, t.lexeme ≠ .eof) (us : List Token) : split (ts ++ us) = split ts ++ split us := by
  suffices hfrom : ∀ body, (ts = [] → body = []) →
      splitFrom body (ts ++ us) = splitFrom body ts ++ splitFrom [] us from hfrom [] fun _ => rfl
  induction ts with
  | nil =>
    intro body hbody
    rw [hbody rfl]
    rfl
  | cons t ts ih =>
    intro body _
    have hlast' : ∀ u ∈ ts.getLast?, u.lexeme = .newline := by
      intro u hu
      refine hlast u ?_
      rw [List.getLast?_cons, Option.mem_def.1 hu]
      rfl
    have hrest := ih hlast' fun u hu => heof u (List.mem_cons_of_mem _ hu)
    rw [List.cons_append]
    by_cases ht : t.lexeme = .newline
    · rw [splitFrom_newline ht, splitFrom_newline ht, hrest [] fun _ => rfl, List.cons_append]
    · have hne := heof t (List.mem_cons_self ..)
      rw [splitFrom_other ht hne, splitFrom_other ht hne]
      refine hrest _ fun hnil => absurd (hlast t ?_) ht
      rw [hnil]
      rfl

end Line

/-! ### Where lines end -/

/-- The place of a token that is a line break. -/
def breakAt? (p : Token × Nat) : Option Nat :=
  if p.1.lexeme = .newline then some p.2 else none

/-- The places of the line breaks among tokens. -/
def lineBreaks (tokens : List Token) : List Nat :=
  tokens.zipIdx.filterMap breakAt?

/-- The place behind the line with a number: behind its line break or, if there is none, at the end mark. -/
def lineEnd (tokens : List Token) (k : Nat) : Nat :=
  match (lineBreaks tokens)[k]? with
  | some i => i + 1
  | none => tokens.findIdx (·.lexeme = .eof)

/-- The place of the first token of the line with a number. -/
def lineStart (tokens : List Token) : Nat → Nat
  | 0 => 0
  | k + 1 => lineEnd tokens k

/-- The same for tokens that start at the place `n`. -/
private def endFrom (n : Nat) (ts : List Token) (k : Nat) : Nat :=
  match ((ts.zipIdx n).filterMap breakAt?)[k]? with
  | some i => i + 1
  | none => n + ts.findIdx (·.lexeme = .eof)

private theorem endFrom_newline {n : Nat} {t : Token} {ts : List Token} (ht : t.lexeme = .newline) :
    endFrom n (t :: ts) 0 = n + 1 ∧ ∀ k, endFrom n (t :: ts) (k + 1) = endFrom (n + 1) ts k := by
  have hbreaks : ((t :: ts).zipIdx n).filterMap breakAt? = n :: (ts.zipIdx (n + 1)).filterMap breakAt? := by
    simp [List.zipIdx_cons, breakAt?, ht]
  have heof : (t :: ts).findIdx (·.lexeme = .eof) = ts.findIdx (·.lexeme = .eof) + 1 := by
    simp [List.findIdx_cons, ht]
  unfold endFrom
  rw [hbreaks, heof]
  refine ⟨rfl, fun k => ?_⟩
  rw [List.getElem?_cons_succ]
  split <;> omega

private theorem endFrom_other {n : Nat} {t : Token} {ts : List Token} (ht : t.lexeme ≠ .newline)
    (he : t.lexeme ≠ .eof) (k : Nat) : endFrom n (t :: ts) k = endFrom (n + 1) ts k := by
  have hbreaks : ((t :: ts).zipIdx n).filterMap breakAt? = (ts.zipIdx (n + 1)).filterMap breakAt? := by
    simp [List.zipIdx_cons, breakAt?, ht]
  have heof : (t :: ts).findIdx (·.lexeme = .eof) = ts.findIdx (·.lexeme = .eof) + 1 := by
    simp [List.findIdx_cons, he]
  unfold endFrom
  rw [hbreaks, heof]
  split <;> omega

private def startFrom (start n : Nat) (ts : List Token) : Nat → Nat
  | 0 => start
  | k + 1 => endFrom n ts k

private theorem next_of_splitFrom {body front : List Token} {stop : Token} {n start : Nat}
    (hn : ∀ (k : Nat) (t : Token), (front ++ [stop])[k]? = some t → t.index = n + k)
    (hfront : ∀ t ∈ front, t.lexeme ≠ .eof) (hstop : stop.lexeme = .eof) (hstart : start + body.length = n)
    {k : Nat} {l : Line} (hl : (Line.splitFrom body (front ++ [stop]))[k]? = some l) :
    l.next = endFrom n (front ++ [stop]) k ∧ startFrom start n (front ++ [stop]) k < l.next := by
  -- The induction is on the tokens in front of the end mark; `body` are those of the line so far.
  induction front generalizing body n start k with
  | nil =>
    have hindex : stop.index = n := hn 0 stop rfl
    cases body with
    | nil => simp [Line.splitFrom, hstop] at hl
    | cons b body =>
      have hline : Line.splitFrom (b :: body) [stop] = [⟨b :: body, stop⟩] := by simp [Line.splitFrom, hstop]
      rw [List.nil_append, hline] at hl
      cases k with
      | zero =>
        cases hl
        have hnext : Line.next ⟨b :: body, stop⟩ = n := by simp [Line.next, hstop, hindex]
        have hend : endFrom n [stop] 0 = n := by simp [endFrom, List.zipIdx_cons, breakAt?, hstop]
        rw [hnext]
        refine ⟨hend.symm, ?_⟩
        rw [List.length_cons] at hstart
        show start < n
        omega
      | succ k => cases hl
  | cons t front ih =>
    have hindex : t.index = n := hn 0 t rfl
    have hn' : ∀ (k : Nat) (u : Token), (front ++ [stop])[k]? = some u → u.index = n + 1 + k := by
      intro k u hu
      have := hn (k + 1) u hu
      omega
    have hfront' : ∀ u ∈ front, u.lexeme ≠ .eof := fun u hu => hfront u (List.mem_cons_of_mem _ hu)
    have ht : t.lexeme ≠ .eof := hfront t (List.mem_cons_self ..)
    rw [List.cons_append] at hl ⊢
    by_cases hbreak : t.lexeme = .newline
    · rw [Line.splitFrom_newline hbreak] at hl
      obtain ⟨hzero, hsucc⟩ := endFrom_newline (n := n) hbreak
      cases k with
      | zero =>
        cases hl
        have hnext : Line.next ⟨body, t⟩ = n + 1 := by simp [Line.next, hbreak, hindex]
        rw [hnext, hzero]
        refine ⟨rfl, ?_⟩
        show start < n + 1
        omega
      | succ k =>
        obtain ⟨hnext, hprogress⟩ := ih hn' hfront' (Nat.add_zero (n + 1)) hl
        rw [hsucc]
        refine ⟨hnext, ?_⟩
        cases k with
        | zero => rwa [startFrom, hzero]
        | succ k => rwa [startFrom, hsucc]
    · rw [Line.splitFrom_other hbreak ht] at hl
      have hend : ∀ k, endFrom n (t :: (front ++ [stop])) k = endFrom (n + 1) (front ++ [stop]) k :=
        endFrom_other hbreak ht
      have hlength : start + (body ++ [t]).length = n + 1 := by simp [← hstart, Nat.add_assoc]
      obtain ⟨hnext, hprogress⟩ := ih hn' hfront' hlength hl
      rw [hend]
      refine ⟨hnext, ?_⟩
      cases k with
      | zero => exact hprogress
      | succ k => rwa [startFrom, hend]

/-- The line with a number goes up to the line break with that number, or to the end mark, and has at least one
token. -/
theorem Line.next_of_split {source file : String} {tokens : List Token} (h : tokenize source file = .ok tokens)
    {k : Nat} {l : Line} (hl : (split tokens)[k]? = some l) :
    l.next = lineEnd tokens k ∧ lineStart tokens k < l.next := by
  obtain ⟨front, stop, rfl, hstop, hfront⟩ := tokenize_eof h
  have hn : ∀ (k : Nat) (t : Token), (front ++ [stop])[k]? = some t → t.index = 0 + k := by
    intro k t ht
    rw [Nat.zero_add]
    exact tokenize_getElem? h ht
  have hend : ∀ k, endFrom 0 (front ++ [stop]) k = lineEnd (front ++ [stop]) k := by
    intro k
    simp only [endFrom, lineEnd, lineBreaks, Nat.zero_add]
  obtain ⟨hnext, hprogress⟩ := next_of_splitFrom hn hfront hstop rfl hl
  rw [hend] at hnext
  refine ⟨hnext, ?_⟩
  cases k with
  | zero => exact hprogress
  | succ k =>
    show lineEnd (front ++ [stop]) k < l.next
    rwa [← hend]

end Mc6809
