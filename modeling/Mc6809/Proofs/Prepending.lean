import Mc6809.Proofs.Lexing.Moved
import Mc6809.Proofs.Places
import Mc6809.Proofs.Predefined
import Mc6809.Proofs.Printing
import Mc6809.Proofs.Refusal

/-!
# Definitions in front of a source

A constant that a session is given may as well be defined on a line in front of the source.  The tokens of the source
are then numbered higher and stand a line further down (`tokensFrom_definitionLine`).  The first pass defines the
constant that would otherwise be there from the start, and the second one only records the line, so that the rest of
each pass is a translation (`run_definition`).  One line after the other, all constants of a session can be moved to
the front of its source (`predefining_is_prepending`).
-/

namespace Mc6809

open Lexer

/-! ### Names -/

/-- A word in small letters that the lexer takes for a name. -/
def IsName (name : String) : Prop :=
  ∃ c cs, name.toList = c :: cs ∧ scan c cs = .ok ⟨.identifier name, c :: cs, []⟩

namespace Lexer

theorem toNat_of_isWordChar {c : Char} (h : isWordChar c = true) : c.toNat < 0x80 := by
  have hle : ∀ d : Char, c ≤ d → c.toNat ≤ d.toNat := fun d hd => UInt32.le_iff_toNat_le.1 hd
  simp only [isWordChar, isWordStart, isLetter, isDecimal, Bool.or_eq_true, Bool.and_eq_true,
    decide_eq_true_eq] at h
  rcases h with (((⟨-, h⟩ | ⟨-, h⟩) | rfl) | rfl) | ⟨-, h⟩
  · exact Nat.lt_of_le_of_lt (hle _ h) (by decide)
  · exact Nat.lt_of_le_of_lt (hle _ h) (by decide)
  · decide
  · decide
  · exact Nat.lt_of_le_of_lt (hle _ h) (by decide)

/-- A name is read from the characters of a word. -/
theorem isWordChar_of_identifier {c : Char} {cs : List Char} {s : Scanned} {name : String} (h : scan c cs = .ok s)
    (hs : s.lexeme = .identifier name) : name.toList = fold s.text ∧ ∀ d ∈ s.text, isWordChar d = true := by
  have hdigits : ∀ {radix : Radix} {mark cs : List Char}, scanDigits radix mark cs = .ok s → False := by
    intro radix mark cs h
    obtain ⟨n, hn⟩ := integer_of_scanDigits h
    cases hn.symm.trans hs
  cases Scans.of_scan h with
  | word hc =>
    have hprint := (print_scanWord (c :: cs)).1
    rw [hs] at hprint
    refine ⟨hprint, ?_⟩
    by_cases hcolon : ∃ rest, (c :: cs).dropWhile isWordChar = ':' :: rest
    · obtain ⟨rest, hd⟩ := hcolon
      rw [scanWord_of_colon hd] at hs
      cases hs
    · rw [scanWord_of_avoids (avoids_eq fun rest hd => hcolon ⟨rest, hd⟩)]
      exact fun d => List.mem_takeWhile_imp
  | number _ _ h =>
    unfold scanNumber at h
    split at h <;> exact (hdigits h).elim
  | marked _ h => exact (hdigits h).elim
  | text => cases hs
  | character h =>
    obtain ⟨d, hd⟩ := char_of_scanCharacter h
    cases hd.symm.trans hs
  | double hd =>
    cases hs
    unfold double? at hd
    split at hd <;> cases hd
  | sign hl =>
    cases hs
    unfold sign? at hl
    split at hl <;> cases hl

end Lexer

/-- Names stay as they are when a session folds them. -/
private theorem IsName.lower_eq {name : String} (h : IsName name) : Text.lower name = name := by
  obtain ⟨c, cs, hname, hscan⟩ := h
  obtain ⟨hfold, hword⟩ := isWordChar_of_identifier hscan rfl
  dsimp only at hfold hword
  rw [← hname] at hfold hword
  have hsmall : name.toList.map Char.toLower = name.toList.map id := by
    rw [List.map_id]
    exact hfold.symm
  exact Text.lower_of_small fun d hd =>
    Text.small_of_toLower (toNat_of_isWordChar (hword d hd)) (List.map_inj_left.1 hsmall d hd)

/-! ### A line in front -/

/-- A line that defines a constant. -/
def definitionLine (p : String × Int) : String :=
  p.1 ++ " = " ++ toString p.2 ++ "\n"

/-- A source behind definitions. -/
def prepend (ds : List (String × Int)) (source : String) : String :=
  ds.foldr (fun p text => definitionLine p ++ text) source

/-- The lexemes of a decimal number. -/
def decimalLexemes : Int → List Lexeme
  | .ofNat n => [.integer n]
  | .negSucc n => [.dec, .integer (n + 1)]

/-- The lexemes of a definition in front of the end of its line. -/
def definitionLexemes (p : String × Int) : List Lexeme :=
  .identifier p.1 :: .equal :: decimalLexemes p.2

private theorem ne_of_mem_definitionLexemes (p : String × Int) :
    ∀ l ∈ definitionLexemes p, l ≠ .newline ∧ l ≠ .eof := by
  unfold definitionLexemes
  cases p.2 <;> simp [decimalLexemes]

namespace Lexer

variable {back front : List Char} {ls : List Lexeme} {after : Bool}

private theorem Leads.decimal (v : Int) (hr : ∀ d ∈ (front ++ back).head?, isSeparator d = true)
    (h : Leads back false front ls after) :
    Leads back false ((toString v).toList ++ front) (decimalLexemes v ++ ls) after := by
  cases v with
  | ofNat n =>
    obtain ⟨d, ds, htext, -, hscan⟩ := scan_decimal n
    have hsame : (toString (Int.ofNat n)).toList = d :: ds := htext
    rw [hsame]
    exact .alone hscan hr nofun h
  | negSucc n =>
    obtain ⟨d, ds, htext, hdigit, hscan⟩ := scan_decimal (n + 1)
    have hminus : (toString (Int.negSucc n)).toList = '-' :: d :: ds := by
      show ("-" ++ toString (n + 1)).toList = _
      rw [String.toList_append, htext]
      rfl
    rw [hminus]
    -- Two minus signs would be one lexeme, but a digit follows.
    refine .sign rfl (fun _ => avoids_cons.2 (decide_eq_false ?_)) nofun (.alone hscan hr nofun h)
    rintro rfl
    cases hdigit

private theorem Leads.definition {p : String × Int} (hname : IsName p.1)
    (hr : ∀ d ∈ (front ++ back).head?, isSeparator d = true) (h : Leads back false front ls after) :
    Leads back true (p.1.toList ++ ' ' :: '=' :: ' ' :: ((toString p.2).toList ++ front)) (definitionLexemes p ++ ls)
      after := by
  obtain ⟨c, cs, hc, hscan⟩ := hname
  have hvalue : Leads back false (' ' :: ((toString p.2).toList ++ front)) (decimalLexemes p.2 ++ ls) after :=
    .skip rfl (.decimal p.2 hr h)
  have hequal : Leads back false (' ' :: '=' :: ' ' :: ((toString p.2).toList ++ front))
      (.equal :: (decimalLexemes p.2 ++ ls)) after :=
    .skip rfl (.sign rfl (fun h => absurd rfl h) nofun hvalue)
  rw [hc]
  exact .alone hscan (by rintro _ ⟨⟩; rfl) nofun hequal

/-- A definition is a line of its own. -/
private theorem leads_definitionLine {p : String × Int} (hname : IsName p.1) (back : List Char) :
    Leads back true (definitionLine p).toList (definitionLexemes p ++ [.newline]) true := by
  have hline : (definitionLine p).toList = p.1.toList ++ ' ' :: '=' :: ' ' :: ((toString p.2).toList ++ ['\n']) := by
    simp [definitionLine]
  rw [hline]
  exact .definition hname (by rintro _ ⟨⟩; rfl) (.sign rfl (fun h => absurd rfl h) nofun (.here true))

private theorem advance_definitionLine {p : String × Int} (hname : IsName p.1) (q : Position) :
    q.advance (definitionLine p).toList = ⟨q.line + 1, 1⟩ := by
  have hline : (definitionLine p).toList = (p.1.toList ++ ' ' :: '=' :: ' ' :: (toString p.2).toList) ++ ['\n'] := by
    simp [definitionLine]
  have hleads : Leads ['\n'] true _ (definitionLexemes p ++ []) false :=
    .definition hname (by rintro _ ⟨⟩; rfl) (.here false)
  rw [List.append_nil, List.append_nil] at hleads
  rw [hline]
  exact q.advance_line (hleads.feed_notMem fun h => (ne_of_mem_definitionLexemes p _ h).1 rfl)

/-- The tokens of a source with a definition in front are those of the definition and those of the source, which are
numbered higher and a line further down. -/
theorem tokensFrom_definitionLine {p : String × Int} (hname : IsName p.1) (source : List Char) (file : String) :
    ∃ tokens, tokens.map Token.lexeme = definitionLexemes p ++ [.newline] ∧
      tokensFrom file true 0 .start ((definitionLine p).toList ++ source) =
        (movedOutcome tokens.length 1 (tokensFrom file true 0 .start source)).map (tokens ++ ·) := by
  obtain ⟨tokens, hlexemes, htokens⟩ := (leads_definitionLine hname source).tokensFrom file 0 .start
  refine ⟨tokens, hlexemes, ?_⟩
  rw [htokens, ← hlexemes, List.length_map, advance_definitionLine hname]
  exact congrArg _ (tokensFrom_moved file true 0 .start source tokens.length 1)

end Lexer

/-- An expression that has the same value in all states. -/
def Expr.Denotes (e : Expr) (v : Int) : Prop :=
  ∀ symbols placeholder, (e.value symbols placeholder).total = v ∧ (e.value symbols placeholder).settled = true

private theorem Expr.read_decimal {v : Int} {ts : List Token} (h : ts.map Token.lexeme = decimalLexemes v)
    (stop : Token) :
    ∃ e, Expr.read stop ts = .ok (e, []) ∧ e.Denotes v := by
  cases v with
  | ofNat n =>
    obtain ⟨t, ts', rfl, ht, hts⟩ := List.map_eq_cons_iff.1 h
    obtain rfl := List.map_eq_nil_iff.1 hts
    have hterms : readTerms stop 1 [] [t] = .ok ([⟨1, .number n, t⟩], []) := by
      simp [readTerms, ht, Lexeme.sign?, Lexeme.atom?, signFollows]
    refine ⟨⟨t, [⟨1, .number n, t⟩]⟩, by rw [read, hterms]; rfl, fun symbols placeholder => ⟨?_, rfl⟩⟩
    show 1 * (n : Int) + 0 = n
    omega
  | negSucc n =>
    obtain ⟨t, ts', rfl, ht, hts⟩ := List.map_eq_cons_iff.1 h
    obtain ⟨u, us, rfl, hu, hus⟩ := List.map_eq_cons_iff.1 hts
    obtain rfl := List.map_eq_nil_iff.1 hus
    have hterms : readTerms stop 1 [] [t, u] = .ok ([⟨-1, .number (n + 1), u⟩], []) := by
      simp [readTerms, ht, hu, Lexeme.sign?, Lexeme.atom?, signFollows]
    refine ⟨⟨t, [⟨-1, .number (n + 1), u⟩]⟩, by rw [read, hterms]; rfl, fun symbols placeholder => ⟨?_, rfl⟩⟩
    show -1 * ((n + 1 : Nat) : Int) + 0 = Int.negSucc n
    omega

/-- The statement of a definition. -/
def Statement.defining (name : String) (place : Token) (e : Expr) : Statement :=
  ⟨place, none, true, [.define name place e], none⟩

/-- The tokens of a definition make up the first line. -/
private theorem split_definitionLine {p : String × Int} {tokens : List Token}
    (h : tokens.map Token.lexeme = definitionLexemes p ++ [.newline]) :
    ∃ (l : Line) (first : Token) (e : Expr), e.Denotes p.2 ∧ l.statement? = some (.defining p.1 first e) ∧
      ∀ us, Line.split (tokens ++ us) = l :: Line.split us := by
  obtain ⟨body, stops, rfl, hbody, hstops⟩ := List.map_eq_append_iff.1 h
  obtain ⟨stop, none, rfl, hstop, hnone⟩ := List.map_eq_cons_iff.1 hstops
  obtain rfl := List.map_eq_nil_iff.1 hnone
  have hlexemes : ∀ t ∈ body, t.lexeme ≠ .newline ∧ t.lexeme ≠ .eof := by
    intro t ht
    refine ne_of_mem_definitionLexemes p _ ?_
    rw [← hbody]
    exact List.mem_map_of_mem ht
  obtain ⟨first, rest, rfl, hfirst, hrest⟩ := List.map_eq_cons_iff.1 hbody
  obtain ⟨equal, ts, rfl, hequal, hts⟩ := List.map_eq_cons_iff.1 hrest
  obtain ⟨e, hread, he⟩ := Expr.read_decimal hts stop
  refine ⟨⟨first :: equal :: ts, stop⟩, first, e, he, ?_, fun us => ?_⟩
  · simp [Line.statement?, Statement.read, Statement.readBody, hfirst, Script.readNamed, afterLexeme?, hequal, hread,
      Script.fault?, Statement.defining]
  · rw [List.append_assoc, List.singleton_append, Line.split_line hlexemes hstop]

/-! ### Runs -/

/-- A source with one line in front, as a translation: its tokens are numbered higher and stand a line further down,
and a constant has got a place. -/
def Translation.below (n : Nat) (name : String) (value : Int) (place : Location) : Translation where
  shift := n
  line := (· + 1)
  key := (· + (n : Int))
  place := fun m => if m = name then some place else none
  notes := [.constant name value]
  key_injective := fun a b h => by
    dsimp only at h
    omega

private theorem Token.translate_below {n : Nat} {name : String} {value : Int} {place : Location} (t : Token) :
    t.translate (.below n name value place) = t.moved n 1 := by
  obtain ⟨lexeme, index, file, line, column⟩ := t
  cases lexeme <;> rfl

private theorem Symbols.translate_below {n : Nat} {name : String} {v : Int} {place : Location}
    {ps : List (String × Int)}
    (h : name ∉ ps.map Prod.fst) :
    (predefined (ps ++ [(name, v)])).translate (.below n name v place) =
      ⟨[], (predefined ps).constants ++ [⟨name, v, some place⟩]⟩ := by
  have hplace : ∀ p ∈ ps, Binding.translate (.below n name v place) ⟨p.1, p.2, none⟩ = ⟨p.1, p.2, none⟩ := by
    intro p hp
    have hne : p.1 ≠ name := fun hname => h (hname ▸ List.mem_map_of_mem hp)
    simp [Binding.translate, Location.translate?, Translation.below, hne]
  have hlast : Binding.translate (.below n name v place) ⟨name, v, none⟩ = ⟨name, v, some place⟩ := by
    simp [Binding.translate, Location.translate?, Translation.below]
  simp only [predefined, translate, List.map_append, List.map_map, List.map_cons, List.map_nil, hlast]
  congr 2
  exact List.map_congr_left hplace

section

variable {name : String} {v : Int} {first : Token} {e : Expr} {l : Line} {n : Nat}

/-- The first pass defines the constant, and it gets the place of its name. -/
private theorem walk_definition_first (he : e.Denotes v)
    (hl : l.statement? = some (.defining name first e)) {ps : List (String × Int)}
    (hps : name ∉ ps.map Prod.fst) (base : Int) :
    walk (State.start .first { base, symbols := .predefined ps }) [l] =
      ((State.start .first { base, symbols := .predefined (ps ++ [(name, v)]) }).translate
        (.below n name v first.location), none) := by
  let s := State.start .first { base, symbols := .predefined ps }
  have hnone : s.symbols.constants.binding? name = none := by
    refine List.find?_eq_none.2 fun b hb => ?_
    obtain ⟨p, hp, rfl⟩ := List.mem_map.1 hb
    exact fun hname => hps (of_decide_eq_true hname ▸ List.mem_map_of_mem hp)
  obtain ⟨htotal, hsettled⟩ := he s.symbols s.placeholder
  have hdoes : Action.Does s (.define name first e) ((s.addConstant name first v).note (.constant name v)) := by
    rw [← htotal]
    exact .define hsettled hnone
  rw [walk_cons_of_ok rfl (Line.run_eq_ok.2 (.inr ⟨_, hl, .first rfl .absent (.cons hdoes (.nil _)) rfl⟩))]
  simp only [State.translate, State.start, Symbols.translate_below hps, Array.map_empty]
  rfl

/-- The second pass only records the line. -/
private theorem walk_definition_second (hl : l.statement? = some (.defining name first e))
    {τ : Translation} (hrows : τ.rows = []) (t : State) :
    walk (t.translate τ).turn [l] = (t.turn.translate (τ.behind [⟨t.base, [], first.line⟩]), none) := by
  have hdoes : Statement.Does (t.turn.translate τ) (.defining name first e)
      ((t.turn.translate τ).record first.line (t.turn.translate τ)) := .skipped rfl rfl .absent
  have hrecord : (t.turn.translate τ).record first.line (t.turn.translate τ) =
      t.turn.translate (τ.behind [⟨t.base, [], first.line⟩]) := by
    cases τ
    cases hrows
    simp only [State.record, State.translate, State.turn, State.start, Array.map_empty]
    rfl
  rw [State.turn_translate hrows, walk_cons_of_ok rfl (Line.run_eq_ok.2 (.inr ⟨_, hl, hdoes⟩)), hrecord]
  rfl

end

/-- A run over lines behind the definition of a constant comes to the same as one in which the constant is defined
beforehand. -/
theorem run_definition {name : String} {v : Int} {first : Token} {e : Expr} {l : Line} (he : e.Denotes v)
    (hl : l.statement? = some (.defining name first e)) {ps : List (String × Int)}
    (hps : name ∉ ps.map Prod.fst) (base : Int) (n : Nat) (ls : List Line) :
    ∃ σ : Translation, σ.name = id ∧
      (∀ k (t : Token), (t.translate (σ.shifted k)).location = (t.moved k 1).location) ∧
      (run { base, symbols := .predefined ps }
          (l :: ls.map (Line.translate (.below n name v first.location)))).state =
        (run { base, symbols := .predefined (ps ++ [(name, v)]) } ls).state.translate σ ∧
      σ.Fails (run { base, symbols := .predefined (ps ++ [(name, v)]) } ls).failure
        (run { base, symbols := .predefined ps }
          (l :: ls.map (Line.translate (.below n name v first.location)))).failure := by
  let τ := Translation.below n name v first.location
  have hkeyed : ∀ p ∈ ls.map (·, n), p.1.Keyed (τ.shifted p.2) := by
    intro p hp t _
    obtain ⟨l', -, rfl⟩ := List.mem_map.1 hp
    rfl
  have hfst : (ls.map (·, n)).map Prod.fst = ls := by simp [Function.comp_def]
  have hcarry : (ls.map (·, n)).map τ.carry = ls.map (Line.translate τ) := by
    rw [List.map_map]
    rfl
  have hsecond : ∀ t, walk (State.start .first { base, symbols := .predefined (ps ++ [(name, v)]) })
      ((ls.map (·, n)).map Prod.fst) = (t, none) →
      walk (t.translate τ).turn [l] = (t.turn.translate (τ.behind [⟨base, [], first.line⟩]), none) := by
    intro t ht
    have hbase : t.base = base := (walk_eq_none_iff.1 ht).base
    rw [walk_definition_second hl rfl, hbase]
  obtain ⟨σ, hσ, hrun⟩ := run_translate_behind hkeyed (walk_definition_first he hl hps base) hsecond
  rw [hfst, hcarry] at hrun
  refine ⟨σ, ?_, ?_, hrun⟩
  · rcases hσ with rfl | rfl <;> rfl
  · rcases hσ with rfl | rfl <;> exact fun k t => rfl

/-! ### Sessions -/

/-- The outcomes of two requests to assemble.  Both succeed with the same code, labels and constants, or both are
refused with the same kind of error, the second one `k` lines further down. -/
inductive Displaced (k : Nat) :
    Session × List Report × Except Trouble (List UInt8) → Session × List Report × Except Trouble (List UInt8) → Prop
  | ok {z z' : Session} {log log' : List Report} {code : List UInt8} (hlabels : z'.labels = z.labels)
      (hconstants : z'.constants = z.constants) : Displaced k (z, log, .ok code) (z', log', .ok code)
  | refused {z z' : Session} {log log' : List Report} {d d' : Diagnostic} {l : Location}
      (hkind : d'.diagnosis.kind = d.diagnosis.kind) (hd : d.location = some l)
      (hd' : d'.location = some { l with line := l.line + k }) :
      Displaced k (z, log, .error (.refused d)) (z', log', .error (.refused d'))

private theorem Displaced.trans {j k : Nat} {x y z : Session × List Report × Except Trouble (List UInt8)}
    (h : Displaced j x y) (h' : Displaced k y z) : Displaced (j + k) x z := by
  cases h with
  | ok hlabels hconstants =>
    cases h' with
    | ok hlabels' hconstants' => exact .ok (hlabels'.trans hlabels) (hconstants'.trans hconstants)
  | refused hkind hd hd' =>
    cases h' with
    | refused hkind' he he' =>
      cases hd'.symm.trans he
      refine .refused (hkind'.trans hkind) hd (he'.trans ?_)
      simp [Int.add_assoc]

namespace Session

variable {z z' : Session} {symbols symbols' : Symbols} {source source' file : String} {base : Option Int} {k : Nat}

/-- Two sources whose first characters that are no lexeme are `k` lines apart. -/
private theorem displaced_of_refusal {problem : Problem} {p : Position} (hseed : seed z.defines = .ok symbols)
    (hseed' : seed z'.defines = .ok symbols') (h : tokensFrom file true 0 .start source.toList = .error (problem, p))
    (h' : tokensFrom file true 0 .start source'.toList = .error (problem, p.down k)) :
    Displaced k (z.assemble source base file) (z'.assemble source' base file) := by
  simp only [assemble, hseed, hseed', tokenize, h, h']
  exact .refused rfl rfl rfl

/-- Two sources with runs of which the second one fails `k` lines further down if the first one fails. -/
private theorem displaced_of_run {tokens tokens' : List Token} (hseed : seed z.defines = .ok symbols)
    (hseed' : seed z'.defines = .ok symbols') (ht : tokenize source file = .ok tokens)
    (ht' : tokenize source' file = .ok tokens') {x x' : Run}
    (hx : x = Mc6809.run { base := base.getD z.base, symbols } (Line.split tokens))
    (hx' : x' = Mc6809.run { base := base.getD z'.base, symbols := symbols' } (Line.split tokens'))
    (hagrees : x.Agrees x')
    (hfails : ∀ p t i, x.failure = some (.refused p t i) → ∃ p' t' i', x'.failure = some (.refused p' t' i') ∧
      p'.diagnosis.kind = p.diagnosis.kind ∧ t'.location = { t.location with line := t.location.line + k }) :
    Displaced k (z.assemble source base file) (z'.assemble source' base file) := by
  obtain ⟨hlast, hresult⟩ := @assemble_of_run z source file base symbols tokens hseed ht
  obtain ⟨hlast', hresult'⟩ := @assemble_of_run z' source' file base symbols' tokens' hseed' ht'
  have hmem := fun e => @mem_of_run_failure source file tokens ht { base := base.getD z.base, symbols } e
  rw [← hx] at hlast hresult hmem
  rw [← hx'] at hlast' hresult'
  generalize z.assemble source base file = a, z'.assemble source' base file = a' at hlast hresult hlast' hresult' ⊢
  obtain ⟨y, log, r⟩ := a
  obtain ⟨y', log', r'⟩ := a'
  dsimp only at hlast hresult hlast' hresult'
  subst hresult hresult'
  cases hf : x.failure with
  | none =>
    rw [hagrees.failure.2 hf, hagrees.output]
    refine .ok ?_ ?_
    · simp only [labels, hlast, hlast', hagrees.labels]
    · simp only [constants, hlast, hlast', hagrees.constants]
  | some e =>
    obtain ⟨p, t, i, rfl, -, -⟩ := hmem e hf
    obtain ⟨p', t', i', hf', hkind, hplace⟩ := hfails p t i hf
    rw [hf']
    exact .refused hkind rfl (congrArg some hplace)

private theorem displaced_refl (hseed : seed z.defines = .ok symbols) (source : String) (base : Option Int)
    (file : String) :
    Displaced 0 (z.assemble source base file) (z.assemble source base file) := by
  rcases h : tokensFrom file true 0 .start source.toList with ⟨problem, p⟩ | tokens
  · exact displaced_of_refusal hseed hseed h h
  · have ht : tokenize source file = .ok tokens := by rw [tokenize, h]
    refine displaced_of_run hseed hseed ht ht rfl rfl (.refl _) fun p t i hf => ⟨p, t, i, hf, rfl, ?_⟩
    exact congrArg (Location.mk t.file · t.column) (Int.add_zero _).symm

/-- A constant that is given last may be defined on a line in front of the source. -/
private theorem displaced_of_definitionLine {ps : List (String × Int)} {p : String × Int} (hname : IsName p.1)
    (hps : ((folded (ps ++ [p])).map Prod.fst).Nodup) (z : Session) (source : String) (base : Option Int)
    (file : String) : Displaced 1 ({ z with defines := ps ++ [p] }.assemble source base file)
      ({ z with defines := ps }.assemble (definitionLine p ++ source) base file) := by
  have hfolded : folded (ps ++ [p]) = folded ps ++ [p] := by
    simp [folded, hname.lower_eq]
  have hkeys := hps
  rw [hfolded, List.map_append, List.nodup_append] at hkeys
  have hnew : p.1 ∉ (folded ps).map Prod.fst := fun hmem => hkeys.2.2 _ hmem _ (List.mem_singleton_self _) rfl
  obtain ⟨symbols, hseed⟩ := exists_seed hps
  obtain ⟨symbols', hseed'⟩ := exists_seed hkeys.1
  obtain ⟨tokens', hlexemes, htokens'⟩ := tokensFrom_definitionLine hname source.toList file
  rw [← String.toList_append] at htokens'
  rcases h : tokensFrom file true 0 .start source.toList with ⟨problem, q⟩ | tokens
  · rw [h] at htokens'
    exact displaced_of_refusal hseed hseed' h htokens'
  · rw [h] at htokens'
    have ht : tokenize source file = .ok tokens := by rw [tokenize, h]
    have ht' : tokenize (definitionLine p ++ source) file =
        .ok (tokens' ++ tokens.map (Token.moved tokens'.length 1)) := by
      rw [tokenize, htokens']
      rfl
    obtain ⟨l, first, e, he, hl, hsplit⟩ := split_definitionLine hlexemes
    obtain ⟨σ, hnames, hplaces, hstate, hfails⟩ :=
      run_definition he hl hnew (base.getD z.base) tokens'.length (Line.split tokens)
    have hmoved : Token.translate (.below tokens'.length p.1 p.2 first.location) = Token.moved tokens'.length 1 :=
      funext Token.translate_below
    rw [← Line.split_translate rfl, hmoved, ← hsplit] at hstate hfails
    have hsymbols : symbols = .predefined (folded ps ++ [p]) := (symbols_of_seed hseed).1.trans (congrArg _ hfolded)
    have hsymbols' : symbols' = .predefined (folded ps) := (symbols_of_seed hseed').1
    subst hsymbols hsymbols'
    refine displaced_of_run hseed hseed' ht ht' rfl rfl (.of_translate hnames hstate hfails) fun q t i hf => ?_
    -- The tokens of the line that fails may be numbered in any way, since only their places are reported.
    rw [hf] at hfails
    obtain ⟨k, q', i', hf', hkind⟩ := hfails.of_refused
    exact ⟨q', _, i', hf', hkind, hplaces k t⟩

/-- Constants may be defined on lines in front of the source. -/
private theorem displaced_prepend {ds : List (String × Int)} (hnames : ∀ p ∈ ds, IsName p.1) {ps : List (String × Int)}
    (hps : ((folded (ps ++ ds)).map Prod.fst).Nodup) (z : Session) (source : String) (base : Option Int)
    (file : String) : Displaced ds.length ({ z with defines := ps ++ ds }.assemble source base file)
      ({ z with defines := ps }.assemble (prepend ds source) base file) := by
  -- The last lines are put in front first, while the constants of the others are still given to the session.
  induction ds generalizing ps with
  | nil =>
    rw [List.append_nil] at hps ⊢
    obtain ⟨symbols, hseed⟩ := exists_seed hps
    exact displaced_refl hseed source base file
  | cons p ds ih =>
    rw [List.append_cons] at hps ⊢
    have hrest := ih (fun q hq => hnames q (List.mem_cons_of_mem _ hq)) hps
    have hkeys : ((folded (ps ++ [p])).map Prod.fst).Nodup := by
      rw [folded, List.map_append, List.map_append, List.nodup_append] at hps
      exact hps.1
    exact hrest.trans (displaced_of_definitionLine (hnames p (List.mem_cons_self ..)) hkeys z _ base file)

end Session

/-- Constants with different names that are given to a session in any of the three ways come to the same as their
definitions in front of the source. -/
theorem predefining_is_prepending (start : Int) {configured defines calls ds : List (String × Int)}
    (hds : ds = configured ++ (defines ++ calls)) (hnames : ∀ p ∈ ds, IsName p.1)
    (hdistinct : (ds.map Prod.fst).Nodup) (source : String) (base : Option Int) (file : String) :
    Displaced ds.length ((Session.given start configured defines calls).assemble source base file)
      ((Session.create start [] []).assemble (prepend ds source) base file) := by
  have hfolded : ∀ qs : List (String × Int), (∀ q ∈ qs, q ∈ ds) → folded qs = qs := by
    intro qs hqs
    have hlower : ∀ q ∈ qs, (Text.lower q.1, q.2) = id q := by
      intro q hq
      rw [(hnames q (hqs q hq)).lower_eq]
      rfl
    rw [folded, List.map_congr_left hlower, List.map_id]
  have hgiven : Session.given start configured defines calls = { base := start, defines := [] ++ ds } := by
    have hlater : folded (defines ++ calls) = defines ++ calls := hfolded _ fun q hq => by
      rw [hds]
      exact List.mem_append_right _ hq
    rw [Session.given_eq, hlater, ← hds, assignAll_of_nodup hdistinct]
    rfl
  rw [hgiven]
  refine Session.displaced_prepend hnames ?_ { base := start } source base file
  rwa [List.nil_append, hfolded ds fun _ hq => hq]

/-- A source whose widths and addresses depend on two constants. -/
private def sized : String :=
  "go: lda size\n ldb off,x\n fcb size+off\nend\n"

theorem predefining_is_prepending_sized :
    IsName "size" ∧ IsName "off" ∧
      prepend [("size", 2), ("off", -1)] sized = "size = 2\noff = -1\n" ++ sized ∧
      Displaced 2 ((Session.given 0x4000 [("size", 2)] [] [("off", -1)]).assemble sized none "main.asm")
        ((Session.create 0x4000 [] []).assemble ("size = 2\noff = -1\n" ++ sized) none "main.asm") ∧
      ((Session.given 0x4000 [("size", 2)] [] [("off", -1)]).assemble sized none "main.asm").2.2.toOption =
        some [0x96, 0x02, 0xE6, 0x1F, 0x01] := by
  have hsize : IsName "size" := ⟨'s', ['i', 'z', 'e'], by decide, rfl⟩
  have hoff : IsName "off" := ⟨'o', ['f', 'f'], by decide, rfl⟩
  have htext : prepend [("size", 2), ("off", -1)] sized = "size = 2\noff = -1\n" ++ sized := by decide +kernel
  have hnames : ∀ p ∈ [("size", 2), ("off", (-1 : Int))], IsName p.1 :=
    List.forall_mem_cons.2 ⟨hsize, List.forall_mem_singleton.2 hoff⟩
  have h := @predefining_is_prepending 0x4000 [("size", 2)] [] [("off", -1)] _ rfl hnames (by decide) sized none
    "main.asm"
  exact ⟨hsize, hoff, htext, htext ▸ h, by decide +kernel⟩

end Mc6809
