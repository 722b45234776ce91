import Mc6809.Proofs.Places

/-!
# Blanks, comments and empty lines

A source can be laid out in many ways.  Blanks may be put between its lexemes, comments at the ends of its lines and
empty lines between its lines, again and again (`Respaced`).  Blanks and comments leave the lexemes of the source as
they are (`Parts.insert`), and an empty line is one more line break among them (`Lexes.insert_feed`), which a run does
not notice (`Session.runOn_newline`).  So the source is assembled in the same way (`spacing_does_not_matter`).
-/

namespace Mc6809

open Lexer

/-! ### Insertions -/

/-- Nothing, or a comment without the end of its line. -/
inductive Remark : List Char → Prop
  | none : Remark []
  | comment {c : Char} {text : List Char} (hc : opensComment c = true) (ht : '\n' ∉ text) : Remark (c :: text)

/-- A text with blanks between two lexemes, a comment at the end of a line, or a line without a lexeme put in. -/
inductive Inserted : List Char → List Char → Prop
  | blanks {front back gap : List Char} (hb : Boundary front back) (hg : ∀ c ∈ gap, isSkipped c = true) :
      Inserted (front ++ back) (front ++ (gap ++ back))
  | remark {front back remark : List Char} (hb : AtLineEnd back) (hr : Remark remark) :
      Inserted (front ++ back) (front ++ (remark ++ back))
  | line {front back gap remark : List Char} (hf : AtLineStart front) (hg : ∀ c ∈ gap, isSkipped c = true)
      (hr : Remark remark) : Inserted (front ++ back) (front ++ (gap ++ (remark ++ '\n' :: back)))

/-- Any number of insertions. -/
inductive Respaced (source : List Char) : List Char → Prop
  | refl : Respaced source source
  | insert {cs cs' : List Char} (h : Respaced source cs) (hi : Inserted cs cs') : Respaced source cs'

namespace Lexer

variable {start : Bool} {front back gap remark : List Char} {ls : List Lexeme}

/-- What is put in at a place does not show among the lexemes if it has none and stays on its line. -/
theorem Parts.insert {cs : List Char} (h : Parts start front back ls) (hs : ∀ c ∈ cs.head?, isSeparator c = true)
    (hf : '\n' ∉ cs) (hi : ∀ start ls, Lexes start back ls → Lexes start (cs ++ back) ls) :
    Lexes start (front ++ (cs ++ back)) ls := by
  have hr : Replaces back (cs ++ back) := by
    cases cs with
    | nil => exact .inl rfl
    | cons c cs => exact .inr hs
  cases h with
  | past _ h => exact h _ hr
  | split h h' =>
    refine h.lexes hr (hi _ _ h') fun he => ?_
    rw [dropWhile_comment hf he]
    exact h'

private theorem Parts.insert_blanks (h : Parts start front back ls) (hg : ∀ c ∈ gap, isSkipped c = true) :
    Lexes start (front ++ (gap ++ back)) ls := by
  refine h.insert (fun c hc => ?_) (fun hf => absurd (hg _ hf) (by decide)) fun start ls hl => ?_
  · simp [isSeparator, hg c (List.mem_of_head? hc)]
  · induction gap with
    | nil => exact hl
    | cons c gap ih =>
      exact .skip (hg c (List.mem_cons_self ..)) (ih fun d hd => hg d (List.mem_cons_of_mem _ hd))

private theorem Parts.insert_remark (h : Parts start front back ls) (hb : AtLineEnd back) (hr : Remark remark) :
    Lexes start (front ++ (remark ++ back)) ls := by
  cases hr with
  | none => exact h.insert_blanks (by simp)
  | @comment c text hc ht =>
    refine h.insert ?_ ?_ fun start ls hl => .comment hc ?_
    · rintro _ ⟨⟩
      simp [isSeparator, hc]
    · rw [List.mem_cons, not_or]
      refine ⟨?_, ht⟩
      rintro rfl
      cases hc
    · rw [List.append_eq, dropWhile_comment ht hb]
      exact hl

/-- A line feed at the start of a line is a line break behind another one, unless the program is over by then. -/
theorem Lexes.insert_feed (h : Lexes true (front ++ back) ls) (hf : AtLineStart front) :
    Lexes true (front ++ '\n' :: back) ls ∨ ∃ ls₁ ls₂, ls = ls₁ ++ ls₂ ∧ (∀ l ∈ ls₁.getLast?, l = .newline) ∧
      .eof ∉ ls₁ ∧ Lexes true (front ++ '\n' :: back) (ls₁ ++ .newline :: ls₂) := by
  have hr : Replaces back ('\n' :: back) := by
    refine .inr ?_
    rintro _ ⟨⟩
    decide
  cases h.parts (.inr hf) with
  | past _ h => exact .inl (h _ hr)
  | @split after ls₁ ls₂ hleads hback =>
    obtain ⟨hlast, rfl⟩ : (∀ l ∈ ls₁.getLast?, l = .newline) ∧ after = true := by
      rcases hf with rfl | hf
      · cases hleads
        exact ⟨by simp, rfl⟩
      · obtain ⟨hlast, hafter⟩ := hleads.newline hf
        refine ⟨fun l hl => ?_, hafter⟩
        rw [hlast] at hl
        exact (Option.some.inj hl).symm
    have hfeed : Lexes true ('\n' :: back) (.newline :: ls₂) := lexes_feed.2 ⟨ls₂, rfl, hback⟩
    exact .inr ⟨ls₁, ls₂, rfl, hlast, hleads.ne_eof, hleads.lexes hr hfeed fun _ => hfeed⟩

end Lexer

/-! ### Empty lines in a run -/

/-- One more token behind the first `n` ones, as a translation. -/
def Translation.inserted (n : Nat) : Translation where
  key := fun k => if k < n then k else k + 1
  key_injective := by
    intro a b h
    dsimp only at h
    split at h <;> split at h <;> omega

/-- An empty line behind other lines only changes the numbers of the tokens behind it. -/
theorem Session.runOn_newline {z : Session} {base : Option Int} {file : String} {ls₁ ls₂ : List Lexeme}
    (hlast : ∀ l ∈ ls₁.getLast?, l = .newline) (heof : .eof ∉ ls₁) :
    (z.runOn base file (ls₁ ++ ls₂)).Agrees (z.runOn base file (ls₁ ++ .newline :: ls₂)) := by
  let τ := Translation.inserted ls₁.length
  let front := Line.split (bare file 0 ls₁)
  let back := Line.split (bare file ls₁.length ls₂)
  have hshift : ∀ (k index : Nat) (ls : List Lexeme),
      (Line.split (bare file index ls)).map (Line.translate (τ.shifted k)) =
        Line.split (bare file (index + k) ls) := by
    intro k index ls
    rw [← Line.split_translate rfl, bare_translate rfl rfl rfl rfl]
    rfl
  have hlines : Line.split (bare file 0 (ls₁ ++ ls₂)) =
      (front.map (·, 0) ++ back.map (·, 1)).map Prod.fst := by
    rw [split_bare_append hlast heof, Nat.zero_add]
    simp [front, back, Function.comp_def]
  have hlines' : Line.split (bare file 0 (ls₁ ++ .newline :: ls₂)) =
      front.map (Line.translate (τ.shifted 0)) ++ ⟨[], ⟨.newline, ls₁.length, file, 0, 0⟩⟩ ::
        back.map (Line.translate (τ.shifted 1)) := by
    rw [split_bare_append hlast heof, hshift, hshift, Nat.zero_add]
    rfl
  have hkeyed : ∀ p ∈ front.map (·, 0) ++ back.map (·, 1), p.1.Keyed (τ.shifted p.2) := by
    intro p hp t ht
    show (if (t.index : Int) < ls₁.length then (t.index : Int) else t.index + 1) = ((t.index + p.2 : Nat) : Int)
    rcases List.mem_append.1 hp with hp | hp
    · obtain ⟨l, hl, rfl⟩ := List.mem_map.1 hp
      have := index_of_mem_bare (Line.body_subset hl t ht)
      rw [if_pos (by omega)]
      rfl
    · obtain ⟨l, hl, rfl⟩ := List.mem_map.1 hp
      have := index_of_mem_bare (Line.body_subset hl t ht)
      rw [if_neg (by omega)]
      rfl
  have hskip : ∀ s, Mc6809.run s (Line.split (bare file 0 (ls₁ ++ .newline :: ls₂))) =
      Mc6809.run s ((front.map (·, 0) ++ back.map (·, 1)).map τ.carry) := by
    intro s
    rw [hlines', run_skip rfl, List.map_append, List.map_map, List.map_map]
    rfl
  obtain ⟨hstate, hfails⟩ := run_translate rfl hkeyed (z.initial base)
  rw [initial_translate rfl ⟨fun _ => rfl, rfl, rfl⟩, ← hlines, ← hskip] at hstate hfails
  exact .of_translate rfl hstate hfails

/-! ### Sources -/

/-- An insertion leaves a source that is assembled in the same way. -/
private theorem Inserted.agrees {cs cs' : List Char} (h : Inserted cs cs') {ls : List Lexeme} (hl : Lexes true cs ls)
    (z : Session) (base : Option Int) (file : String) :
    ∃ ls', Lexes true cs' ls' ∧ (z.runOn base file ls).Agrees (z.runOn base file ls') := by
  cases h with
  | blanks hb hg => exact ⟨ls, (hb.parts hl).insert_blanks hg, .refl _⟩
  | remark hb hr => exact ⟨ls, (hl.parts (.inl hb)).insert_remark hb hr, .refl _⟩
  | @line front back gap remark hf hg hr =>
    -- The line break comes first, then the comment in front of it and last the blanks in front of that.
    have hrest : ∀ {ls'}, Lexes true (front ++ '\n' :: back) ls' →
        Lexes true (front ++ (gap ++ (remark ++ '\n' :: back))) ls' := by
      intro ls' hl'
      have hend : AtLineEnd ('\n' :: back) := avoids_cons.2 (by decide)
      have hremark := (hl'.parts (.inr hf)).insert_remark hend hr
      exact (hremark.parts (.inr hf)).insert_blanks hg
    rcases hl.insert_feed hf with hfeed | ⟨ls₁, ls₂, rfl, hlast, heof, hfeed⟩
    · exact ⟨ls, hrest hfeed, .refl _⟩
    · exact ⟨_, hrest hfeed, z.runOn_newline hlast heof⟩

/-- Blanks between lexemes, comments at the ends of lines and lines without lexemes may be put into a source that can
be assembled, any number of times.  It can then still be assembled, and to the same code, labels and constants. -/
theorem spacing_does_not_matter {z z₁ : Session} {source source' file : String} {base : Option Int} {log : List Report}
    {code : List UInt8} (h : z.assemble source base file = (z₁, log, .ok code))
    (hs : Respaced source.toList source'.toList) :
    ∃ z₂ log', z.assemble source' base file = (z₂, log', .ok code) ∧ z₂.labels = z₁.labels ∧
      z₂.constants = z₁.constants := by
  obtain ⟨symbols, ls, hseed, hl, hgives⟩ := Session.gives_of_assemble h
  suffices ∃ ls', Lexes true source'.toList ls' ∧ (z.runOn base file ls').Gives z₁ code by
    obtain ⟨ls', hl', hgives'⟩ := this
    exact Session.assemble_of_gives hseed hl' hgives'
  generalize source'.toList = cs at hs
  induction hs with
  | refl => exact ⟨ls, hl, hgives⟩
  | insert _ hi ih =>
    obtain ⟨ls₁, hl₁, hgives₁⟩ := ih
    obtain ⟨ls₂, hl₂, hagrees⟩ := hi.agrees hl₁ z base file
    exact ⟨ls₂, hl₂, hagrees.gives hgives₁⟩

/-- A source in few characters, with text behind its end that is not made of lexemes. -/
private def tight : String :=
  "n=2\ngo:bra go\n end\n\"junk"

/-- The same source with a blank, a comment and a line put in. -/
private def loose : String :=
  "n=2\n ; loop\ngo:\tbra go* back\n end\n\"junk"

private theorem respaced_loose : Respaced tight.toList loose.toList := by
  have hb : Boundary ['n', '=', '2', '\n', 'g', 'o', ':'] "bra go\n end\n\"junk".toList :=
    @Boundary.lexeme 'n' [] _ _ (.identifier "n") rfl <| @Boundary.lexeme '=' [] _ _ .equal rfl <|
      @Boundary.lexeme '2' [] _ _ (.integer 2) rfl <| @Boundary.lexeme '\n' [] _ _ .newline rfl <|
        @Boundary.lexeme 'g' ['o', ':'] [] _ (.label "go") rfl (.here _)
  have hblank := @Inserted.blanks _ _ ['\t'] hb (List.forall_mem_singleton.2 rfl)
  have hremark := @Inserted.remark "n=2\ngo:\tbra go".toList ('\n' :: " end\n\"junk".toList) "* back".toList
    (avoids_cons.2 (by decide)) (.comment rfl (by decide))
  have hline := @Inserted.line "n=2\n".toList "go:\tbra go* back\n end\n\"junk".toList [' '] "; loop".toList
    (.inr rfl) (List.forall_mem_singleton.2 rfl) (.comment rfl (by decide))
  exact .insert (.insert (.insert .refl hblank) hremark) hline

theorem spacing_does_not_matter_loose :
    Respaced tight.toList loose.toList ∧
      ∃ z₁ log, Session.assemble {} tight none "main.asm" = (z₁, log, .ok [0x20, 0xFE]) ∧
      ∃ z₂ log', Session.assemble {} loose none "main.asm" = (z₂, log', .ok [0x20, 0xFE]) ∧
        z₂.labels = [("go", 0x4000)] ∧ z₂.constants = [("n", 2)] := by
  have hcode : (Session.assemble {} tight none "main.asm").2.2.toOption = some [0x20, 0xFE] := by decide +kernel
  have htables : (Session.assemble {} tight none "main.asm").1.labels = [("go", 0x4000)] ∧
      (Session.assemble {} tight none "main.asm").1.constants = [("n", 2)] := by
    decide +kernel
  have h := Session.assemble_eq hcode
  obtain ⟨z₂, log', h', hlabels, hconstants⟩ := spacing_does_not_matter h respaced_loose
  exact ⟨respaced_loose, _, _, h, z₂, log', h', hlabels.trans htables.1, hconstants.trans htables.2⟩

end Mc6809
