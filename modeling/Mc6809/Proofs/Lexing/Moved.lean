import Mc6809.Proofs.Lexing.Lexemes

/-!
# Tokens further down

A text that stands further down has the same tokens with higher numbers and lines (`tokensFrom_moved`).  So the tokens
of a text behind others are those of the others and then its own, moved (`Leads.tokensFrom`).
-/

namespace Mc6809

namespace Position

/-- The same column some lines further down. -/
def down (p : Position) (k : Nat) : Position :=
  ⟨p.line + k, p.column⟩

private theorem advance_down (p : Position) (k : Nat) (cs : List Char) :
    (p.down k).advance cs = (p.advance cs).down k := by
  have hstep : ∀ (q : Position) (c : Char), (q.down k).step c = (q.step c).down k := by
    intro q c
    unfold step
    split
    · rw [down, down, Nat.add_right_comm]
    · rfl
  induction cs generalizing p with
  | nil => rfl
  | cons c cs ih =>
    show ((p.down k).step c).advance cs = ((p.step c).advance cs).down k
    rw [hstep, ih]

theorem advance_append (p : Position) (cs ds : List Char) : p.advance (cs ++ ds) = (p.advance cs).advance ds :=
  List.foldl_append

/-- A line feed leads to the start of the next line. -/
theorem advance_line (p : Position) {cs : List Char} (h : '\n' ∉ cs) :
    p.advance (cs ++ ['\n']) = ⟨p.line + 1, 1⟩ := by
  have hline : ∀ q : Position, (q.advance cs).line = q.line := by
    induction cs with
    | nil => exact fun _ => rfl
    | cons c cs ih =>
      intro q
      rw [List.mem_cons, not_or] at h
      have hstep : (q.step c).line = q.line := by
        rw [step, if_neg (Ne.symm h.1)]
      exact (ih h.2 (q.step c)).trans hstep
  rw [advance_append]
  show (p.advance cs).step '\n' = _
  rw [step, if_pos rfl, hline]

end Position

/-- A token with a higher number on a lower line. -/
def Token.moved (n k : Nat) (t : Token) : Token :=
  { t with index := t.index + n, line := t.line + k }

namespace Lexer

/-- What reading a text comes to further down. -/
def movedOutcome (n k : Nat) : Except (Problem × Position) (List Token) → Except (Problem × Position) (List Token)
  | .ok tokens => .ok (tokens.map (Token.moved n k))
  | .error (problem, p) => .error (problem, p.down k)

private theorem movedOutcome_map (n k : Nat) (t : Token) (x : Except (Problem × Position) (List Token)) :
    movedOutcome n k (x.map (t :: ·)) = (movedOutcome n k x).map (t.moved n k :: ·) := by
  rcases x with ⟨problem, p⟩ | tokens <;> rfl

theorem tokensFrom_moved (file : String) (start : Bool) (index : Nat) (p : Position) (cs : List Char) (n k : Nat) :
    tokensFrom file start (index + n) (p.down k) cs = movedOutcome n k (tokensFrom file start index p cs) := by
  fun_induction tokensFrom file start index p cs with
  | case1 start index p =>
    rw [tokensFrom]
    rfl
  | case2 start index p c cs hc ih =>
    rw [tokensFrom, if_pos hc, ← ih]
    exact congrArg (tokensFrom file start (index + n) · cs) (Position.advance_down p k [c])
  | case3 start index p c cs hskip hc ih =>
    rw [tokensFrom, if_neg hskip, if_pos hc, Position.advance_down, ih]
  | case4 start index p c cs hskip hcomment r hr =>
    rw [tokensFrom_of_refusal (by simpa using hskip) (by simpa using hcomment) hr, Position.advance_down]
    rfl
  | case5 start index p c cs _ _ s hscan token q =>
    rename_i hstop
    rw [tokensFrom_of_scan hscan, if_pos hstop, Position.advance_down]
    simp only [movedOutcome, List.map_cons, List.map_nil, Token.moved, token, q, Position.down, Nat.add_right_comm]
  | case6 start index p c cs _ _ s hscan token q hstop =>
    rename_i ih
    rw [tokensFrom_of_scan hscan, if_neg hstop, Position.advance_down, Nat.add_right_comm, ih, movedOutcome_map]
    rfl

/-- The tokens up to a boundary come first, and those behind it follow. -/
theorem Leads.tokensFrom {start after : Bool} {front back : List Char} {ls : List Lexeme}
    (h : Leads back start front ls after) (file : String) (index : Nat) (p : Position) :
    ∃ tokens, tokens.map Token.lexeme = ls ∧ Lexer.tokensFrom file start index p (front ++ back) =
      (Lexer.tokensFrom file after (index + ls.length) (p.advance front) back).map (tokens ++ ·) := by
  have hmap : ∀ {x : Except (Problem × Position) (List Token)} (t : Token) (ts : List Token),
      (x.map (ts ++ ·)).map (t :: ·) = x.map (t :: ts ++ ·) := by
    rintro (e | us) t ts <;> rfl
  induction h generalizing index p with
  | here start =>
    have hnil : ∀ x : Except (Problem × Position) (List Token), x.map ([] ++ ·) = x := by
      rintro (e | tokens) <;> rfl
    exact ⟨[], rfl, (hnil _).symm⟩
  | skip hc _ ih =>
    obtain ⟨tokens, hlexemes, htokens⟩ := ih index (p.step _)
    refine ⟨tokens, hlexemes, ?_⟩
    rw [List.cons_append, Lexer.tokensFrom, if_pos hc, htokens]
    rfl
  | @comment start after c text front ls hc ht he h ih =>
    obtain ⟨tokens, hlexemes, htokens⟩ := ih index (p.advance (c :: text))
    refine ⟨tokens, hlexemes, ?_⟩
    rw [List.append_assoc, List.cons_append, tokensFrom_of_comment hc ht he, htokens, Position.advance_append]
  | @next start after c text front l ls hs hl h ih =>
    obtain ⟨tokens, hlexemes, htokens⟩ := ih (index + 1) (p.advance (c :: text))
    refine ⟨⟨l, index, file, p.line, p.column⟩ :: tokens, by rw [List.map_cons, hlexemes], ?_⟩
    rw [List.append_assoc, List.cons_append, tokensFrom_of_scan hs, if_neg (by simp [hl]), htokens, hmap,
      Position.advance_append, List.length_cons, Nat.add_right_comm, Nat.add_assoc index]

end Lexer

end Mc6809
