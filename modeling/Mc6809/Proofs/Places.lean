import Mc6809.Proofs.Lexing.Lexemes
import Mc6809.Proofs.Translation.Run
import Mc6809.Proofs.WriteOnce

/-!
# Lexemes without places

Where the lexemes of a source stand makes no difference to what is assembled.  A session comes to the same code and
the same symbols as a run over the lexemes without their places (`Session.gives_of_assemble`), and the other way around
(`Session.assemble_of_gives`).
-/

namespace Mc6809

open Lexer

/-! ### Runs with the same result -/

/-- Runs of which both or none fail, with the same code and the same symbols. -/
structure Run.Agrees (x x' : Run) : Prop where
  failure : x'.failure = none ↔ x.failure = none
  output : x'.state.output = x.state.output
  labels : x'.state.symbols.labels.pairs = x.state.symbols.labels.pairs
  constants : x'.state.symbols.constants.pairs = x.state.symbols.constants.pairs

/-- A run with a session's symbols and the given code. -/
structure Run.Gives (x : Run) (z : Session) (code : List UInt8) : Prop where
  failure : x.failure = none
  output : x.state.output.toList = code
  labels : x.state.symbols.labels.pairs = z.labels
  constants : x.state.symbols.constants.pairs = z.constants

namespace Run.Agrees

variable {x y : Run} {z : Session} {code : List UInt8}

theorem refl (x : Run) : x.Agrees x :=
  ⟨Iff.rfl, rfl, rfl, rfl⟩

private theorem symm (h : x.Agrees y) : y.Agrees x :=
  ⟨h.failure.symm, h.output.symm, h.labels.symm, h.constants.symm⟩

theorem gives (h : x.Agrees y) (hx : x.Gives z code) : y.Gives z code :=
  ⟨h.failure.2 hx.failure, by rw [h.output, hx.output], h.labels.trans hx.labels, h.constants.trans hx.constants⟩

/-- A translation that keeps the names keeps the result. -/
theorem of_translate {τ : Translation} (hname : τ.name = id) (hstate : y.state = x.state.translate τ)
    (hfails : τ.Fails x.failure y.failure) : x.Agrees y := by
  have hpairs : ∀ t : Bindings, Bindings.pairs (t.map (Binding.translate τ)) = t.pairs := by
    intro t
    simp [Bindings.pairs, Binding.translate, hname]
  refine ⟨hfails.eq_none_iff, ?_, ?_, ?_⟩ <;> rw [hstate]
  · rfl
  · exact hpairs _
  · exact hpairs _

end Run.Agrees

/-! ### Erasing places -/

/-- Erasing places as a translation. -/
def Translation.erased : Translation where
  line := fun _ => 0
  column := fun _ => 0

theorem Token.translate_erased (t : Token) : t.translate .erased = erase t := by
  obtain ⟨lexeme, index, file, line, column⟩ := t
  cases lexeme <;> rfl

namespace Lexer

variable {file : String} {index : Nat} {ls : List Lexeme}

theorem index_of_mem_bare {t : Token} (h : t ∈ bare file index ls) :
    index ≤ t.index ∧ t.index < index + ls.length := by
  induction ls generalizing index with
  | nil => cases h
  | cons l ls ih =>
    rw [List.length_cons]
    rcases List.mem_cons.1 h with rfl | h
    · dsimp only
      omega
    · have := ih h
      omega

/-- Tokens without places are only numbered anew. -/
theorem bare_translate {τ : Translation} (hname : τ.name = id) (hline : τ.line 0 = 0) (hcolumn : τ.column 0 = 0)
    (hcontinued : τ.continued = false) (file : String) (index : Nat) (ls : List Lexeme) :
    (bare file index ls).map (Token.translate τ) = bare file (index + τ.shift) ls := by
  have htoken : ∀ l i, Token.translate τ ⟨l, i, file, 0, 0⟩ = ⟨l, i + τ.shift, file, 0, 0⟩ := by
    intro l i
    cases l <;> simp [Token.translate, Lexeme.translate, hname, hline, hcolumn, hcontinued]
  induction ls generalizing index with
  | nil => rfl
  | cons l ls ih => rw [bare, List.map_cons, htoken, ih, Nat.add_right_comm, bare]

/-- Lexemes that end with a line can be cut into lines by themselves. -/
theorem split_bare_append (hlast : ∀ l ∈ ls.getLast?, l = .newline) (heof : .eof ∉ ls) (file : String) (index : Nat)
    (ls' : List Lexeme) : Line.split (bare file index (ls ++ ls')) =
      Line.split (bare file index ls) ++ Line.split (bare file (index + ls.length) ls') := by
  rw [bare_append]
  refine Line.split_append (fun t ht => hlast t.lexeme ?_) (fun t ht he => heof ?_) _
  · rw [← map_lexeme_bare file index ls, List.getLast?_map, Option.mem_def.1 ht]
    rfl
  · rw [← map_lexeme_bare file index ls, ← he]
    exact List.mem_map_of_mem ht

end Lexer

/-- Nothing of the other source stands in front of what is translated. -/
structure Translation.Whole (τ : Translation) : Prop where
  place : ∀ name, τ.place name = none
  rows : τ.rows = []
  notes : τ.notes = []

private theorem Symbols.translate_predefined_of_name {τ : Translation} (h : τ.name = id) (hw : τ.Whole)
    (defines : List (String × Int)) : (predefined defines).translate τ = predefined defines := by
  simp [predefined, translate, Binding.translate, Location.translate?, h, hw.place]

namespace Session

variable {z z' : Session} {source file : String} {base : Option Int} {log : List Report} {code : List UInt8}
  {symbols : Symbols} {ls : List Lexeme}

/-- The state before a run. -/
def initial (z : Session) (base : Option Int) : State where
  base := base.getD z.base
  symbols := .predefined (z.defines.map fun p => (Text.lower p.1, p.2))

/-- The run of a session over lexemes without places. -/
def runOn (z : Session) (base : Option Int) (file : String) (ls : List Lexeme) : Run :=
  Mc6809.run (z.initial base) (Line.split (bare file 0 ls))

/-- Only names occur in the state before a run, but no places and no numbers of tokens. -/
theorem initial_translate {τ : Translation} (h : τ.name = id) (hw : τ.Whole) :
    (z.initial base).translate τ = z.initial base := by
  simp [initial, State.translate, Symbols.translate_predefined_of_name h hw, hw.rows, hw.notes]

private theorem runOn_agrees {tokens : List Token} (h : tokens.map erase = bare file 0 ls) :
    (Mc6809.run (z.initial base) (Line.split tokens)).Agrees (z.runOn base file ls) := by
  have herase : erase = Token.translate .erased := funext fun t => t.translate_erased.symm
  obtain ⟨hstate, hfails⟩ := run_map_translate (τ := .erased) rfl rfl rfl (z.initial base) (Line.split tokens)
  rw [initial_translate rfl ⟨fun _ => rfl, rfl, rfl⟩, ← Line.split_translate rfl, ← herase, h] at hstate hfails
  exact .of_translate rfl hstate hfails

private theorem initial_of_seed (h : seed z.defines = .ok symbols) :
    { base := base.getD z.base, symbols } = z.initial base := by
  rw [initial, (symbols_of_seed h).1]

/-- A source that is assembled, as a run over its lexemes. -/
theorem gives_of_assemble (h : z.assemble source base file = (z', log, .ok code)) :
    ∃ symbols ls, seed z.defines = .ok symbols ∧ Lexes true source.toList ls ∧
      (z.runOn base file ls).Gives z' code := by
  obtain ⟨_, tokens, symbols, _, _, -, -, hassembled⟩ := assemble_eq_ok h
  obtain ⟨ls, hl, herase⟩ := lexes_of_tokensFrom (tokensFrom_of_tokenize hassembled.tokenized)
  obtain ⟨hlast, hresult⟩ := @assemble_of_run z source file base _ _ hassembled.seeded hassembled.tokenized
  rw [h, initial_of_seed hassembled.seeded] at hlast hresult
  dsimp only at hlast
  refine ⟨symbols, ls, hassembled.seeded, hl, (runOn_agrees herase).gives ?_⟩
  rcases hf : (Mc6809.run (z.initial base) (Line.split tokens)).failure with _ | e
  · rw [hf] at hresult
    cases hresult
    exact ⟨hf, rfl, by simp only [labels, hlast], by simp only [constants, hlast]⟩
  · rw [hf] at hresult
    cases hresult

/-- A run over the lexemes of a source that does not fail, as the source that is assembled. -/
theorem assemble_of_gives (hseed : seed z.defines = .ok symbols) (hl : Lexes true source.toList ls)
    (h : (z.runOn base file ls).Gives z' code) :
    ∃ z₁ log, z.assemble source base file = (z₁, log, .ok code) ∧ z₁.labels = z'.labels ∧
      z₁.constants = z'.constants := by
  obtain ⟨tokens, htokens, herase⟩ := tokensFrom_of_lexes hl file 0 .start
  have ht : tokenize source file = .ok tokens := by
    rw [tokenize, htokens]
  have hgives := (runOn_agrees herase).symm.gives h
  obtain ⟨hlast, hresult⟩ := @assemble_of_run z source file base _ _ hseed ht
  rw [initial_of_seed hseed] at hlast hresult
  rw [hgives.failure, hgives.output] at hresult
  refine ⟨_, _, Prod.ext rfl (Prod.ext rfl hresult), ?_, ?_⟩
  · simp only [labels, hlast]
    exact hgives.labels
  · simp only [constants, hlast]
    exact hgives.constants

end Session

end Mc6809
