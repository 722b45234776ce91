import Mc6809.Proofs.Refusal
import Mc6809.Proofs.Translation.Run
import Mc6809.Proofs.WriteOnce

/-!
# Names of symbols

What symbols are called makes no difference as long as different ones are called differently.  A run over a source
whose symbols have been renamed ends with the same code, the same listing and the renamed tables, or it is refused at
the same place for the same kind of reason (`names_do_not_matter`).
-/

namespace Mc6809

/-! ### Renamed sources -/

def Lexeme.rename (r : String → String) : Lexeme → Lexeme
  | label name => label (r name)
  | identifier name => identifier (r name)
  | l => l

/-- A token with another name, if it is a label or an identifier. -/
def Token.rename (r : String → String) (t : Token) : Token :=
  { t with lexeme := t.lexeme.rename r }

/-- A run over tokens with predefined constants. -/
def generate (base : Int) (defines : List (String × Int)) (tokens : List Token) : Run :=
  run { base, symbols := .predefined defines } (Line.split tokens)

/-- A renaming as a translation that leaves all else as it is. -/
def Translation.renaming {r : String → String} (hr : Function.Injective r) : Translation where
  name := r
  name_injective := hr

section

variable {r : String → String} {hr : Function.Injective r}

private theorem Token.translate_renaming (t : Token) : t.translate (.renaming hr) = t.rename r := by
  obtain ⟨lexeme, index, file, line, column⟩ := t
  cases lexeme <;> rfl

private theorem Row.translate_renaming : Row.translate (.renaming hr) = id := rfl

private theorem Symbols.translate_predefined (defines : List (String × Int)) :
    (predefined defines).translate (.renaming hr) = predefined (defines.map fun p => (r p.1, p.2)) := by
  simp [predefined, translate, Binding.translate, Location.translate?, Translation.renaming]

private theorem Bindings.pairs_renaming (t : Bindings) :
    pairs (t.map (Binding.translate (.renaming hr))) = t.pairs.map fun p => (r p.1, p.2) := by
  simp [pairs, Binding.translate, Translation.renaming]

/-- A run over a renamed source, in terms of that over the source itself. -/
private theorem generate_renaming (base : Int) (defines : List (String × Int)) (tokens : List Token) :
    (generate base (defines.map fun p => (r p.1, p.2)) (tokens.map (Token.rename r))).state =
        (generate base defines tokens).state.translate (.renaming hr) ∧
      (Translation.renaming hr).Fails (generate base defines tokens).failure
        (generate base (defines.map fun p => (r p.1, p.2)) (tokens.map (Token.rename r))).failure := by
  have hrename : Token.rename r = Token.translate (.renaming hr) := funext fun t => t.translate_renaming.symm
  have hstart : State.translate (.renaming hr) { base, symbols := .predefined defines } =
      { base, symbols := .predefined (defines.map fun p => (r p.1, p.2)) } := by
    have hwhole : (Translation.renaming hr).rows = [] ∧ (Translation.renaming hr).notes = [] := ⟨rfl, rfl⟩
    simp [State.translate, Symbols.translate_predefined, hwhole]
  have hrun := run_map_translate (τ := .renaming hr) rfl rfl rfl { base, symbols := .predefined defines }
    (Line.split tokens)
  rwa [hstart, ← Line.split_translate rfl, ← hrename] at hrun

end

/-- A run over a source whose symbols have got other names, with the predefined constants renamed alike, fails if and
only if the run over the source does.  Without a failure it has the same code, the same listing and the same tables but
for the names.  With a failure it is refused at the same place, and for the same kind of reason. -/
theorem names_do_not_matter {source file : String} {tokens : List Token} (ht : tokenize source file = .ok tokens)
    {r : String → String} (hr : Function.Injective r) {base : Int} {defines : List (String × Int)} {x x' : Run}
    (hx : x = generate base defines tokens)
    (hx' : x' = generate base (defines.map fun p => (r p.1, p.2)) (tokens.map (Token.rename r))) :
    (x'.failure = none ↔ x.failure = none) ∧
      (x.failure = none → x'.state.output = x.state.output ∧ x'.state.listing = x.state.listing ∧
        x'.state.symbols.labels.pairs = x.state.symbols.labels.pairs.map (fun p => (r p.1, p.2)) ∧
        x'.state.symbols.constants.pairs = x.state.symbols.constants.pairs.map fun p => (r p.1, p.2)) ∧
      ∀ e, x.failure = some e → ∃ p t i p' t' i', e = .refused p t i ∧ x'.failure = some (.refused p' t' i') ∧
        p'.diagnosis.kind = p.diagnosis.kind ∧ t'.location = t.location := by
  obtain ⟨hstate, hfails⟩ := @generate_renaming r hr base defines tokens
  rw [← hx, ← hx'] at hstate hfails
  refine ⟨hfails.eq_none_iff, fun _ => ?_, fun e he => ?_⟩
  · rw [hstate]
    have hlisting : x.state.listing.map (Row.translate (.renaming hr)) = x.state.listing := by
      rw [Row.translate_renaming, Array.map_id]
    exact ⟨rfl, hlisting, Bindings.pairs_renaming _, Bindings.pairs_renaming _⟩
  · obtain ⟨p, t, i, rfl, -, -⟩ := mem_of_run_failure ht (hx ▸ he)
    rw [he] at hfails
    obtain ⟨n, p', i', he', hkind⟩ := hfails.of_refused
    exact ⟨p, t, i, p', _, i', rfl, he', hkind, rfl⟩

/-- A source with a forward branch and a constant that is made from a predefined one. -/
private def threeNames : String :=
  "here: bra there\nsize = unit+1\nthere: lda #size\n"

/-- A source whose last line refers to a symbol that is not defined but almost. -/
private def misspelt : String :=
  "there: nop\n bra their\n"

theorem names_do_not_matter_marked :
    ∃ tokens wrong x, tokenize threeNames "main.asm" = .ok tokens ∧ tokenize misspelt "main.asm" = .ok wrong ∧
      x = generate 0x4000 [("!unit", 6)] (tokens.map (Token.rename ("!" ++ ·))) ∧ x.failure = none ∧
      x.state.output = #[0x20, 0x00, 0x86, 0x07] ∧
      x.state.symbols.labels.pairs = [("!here", 0x4000), ("!there", 0x4002)] ∧
      x.state.symbols.constants.pairs = [("!unit", 6), ("!size", 7)] ∧
      ∃ p t i, (generate 0x4000 [] (wrong.map (Token.rename ("!" ++ ·)))).failure = some (.refused p t i) ∧
        p.diagnosis.kind = .undefinedSymbol ∧ t.location = ⟨"main.asm", 2, 6⟩ := by
  let tokens := (tokenize threeNames "main.asm").toOption.getD []
  let wrong := (tokenize misspelt "main.asm").toOption.getD []
  have ht : tokenize threeNames "main.asm" = .ok tokens := tokenize_eq_ok (by decide +kernel)
  have hwrong : tokenize misspelt "main.asm" = .ok wrong := tokenize_eq_ok (by decide +kernel)
  have hr : Function.Injective ("!" ++ · : String → String) := fun a b h => by simpa using h
  have hx : (generate 0x4000 [("unit", 6)] tokens).failure = none ∧
      (generate 0x4000 [("unit", 6)] tokens).state.output = #[0x20, 0x00, 0x86, 0x07] ∧
      (generate 0x4000 [("unit", 6)] tokens).state.symbols.labels.pairs = [("here", 0x4000), ("there", 0x4002)] ∧
      (generate 0x4000 [("unit", 6)] tokens).state.symbols.constants.pairs = [("unit", 6), ("size", 7)] := by
    decide +kernel
  have hy : (generate 0x4000 [] wrong).failure = some (.refused (.undefinedSymbol "their" ["there"])
      ⟨.identifier "their", 4, "main.asm", 2, 6⟩ 5) := by
    decide +kernel
  obtain ⟨hnone, hout, hlabels, hconstants⟩ := hx
  obtain ⟨hfailure, hsame, -⟩ := names_do_not_matter ht hr (x := generate 0x4000 [("unit", 6)] tokens) rfl rfl
  obtain ⟨hout', -, hlabels', hconstants'⟩ := hsame hnone
  obtain ⟨-, -, hrefused⟩ := names_do_not_matter hwrong hr (x := generate 0x4000 [] wrong) rfl rfl
  obtain ⟨p, t, i, p', t', i', he, hf, hkind, hlocation⟩ := hrefused _ hy
  cases he
  rw [hlabels] at hlabels'
  rw [hconstants] at hconstants'
  exact ⟨tokens, wrong, _, ht, hwrong, rfl, hfailure.2 hnone, hout'.trans hout, hlabels', hconstants',
    p', t', i', hf, hkind, hlocation⟩

end Mc6809
