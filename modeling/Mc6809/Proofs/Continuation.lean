import Mc6809.Proofs.MoreSymbols
import Mc6809.Proofs.Places

/-!
# Sources that are continued

What is written below a source does not change what the source itself is assembled to.  Its labels and constants come
first in the tables, and its code comes first in the output (`continuation_extends_results`), unless a constant below
takes the name of one of its labels.  The first pass goes over the source in the same way, and the second one meets
more symbols but no other values (`run_append`).
-/

namespace Mc6809

open Lexer

/-! ### Constants and the lines that define them -/

section Constants

variable {s t : State} {name : String}

private theorem Action.DoAll.mem_constants {as : List Action} (h : DoAll s as t)
    (hn : name ∈ t.symbols.constants.names) :
    name ∈ s.symbols.constants.names ∨ ∃ a ∈ as, a.defined? = some name := by
  induction h with
  | nil => exact .inl hn
  | @cons s t u a as h _ ih =>
    rcases ih hn with hn | ⟨b, hb, hd⟩
    · rcases hd : a.defined? with _ | new
      · rw [h.symbols_of_defined? hd] at hn
        exact .inl hn
      · cases h with
        | define =>
          cases hd
          rw [State.note, State.addConstant, Bindings.names_append] at hn
          rcases List.mem_append.1 hn with hn | hn
          · exact .inl hn
          · cases List.mem_singleton.1 hn
            exact .inr ⟨_, List.mem_cons_self .., rfl⟩
        | _ => cases hd
    · exact .inr ⟨b, List.mem_cons_of_mem _ hb, hd⟩

/-- A constant is there before a line or defined by it. -/
theorem Line.mem_constants {l : Line} (h : l.run s = .ok () t) (hn : name ∈ t.symbols.constants.names) :
    name ∈ s.symbols.constants.names ∨ name ∈ l.definitions := by
  rcases Line.run_eq_ok.1 h with ⟨-, rfl⟩ | ⟨st, hl, hd⟩
  · exact .inl hn
  · rw [Line.mem_definitions hl]
    cases hd with
    | first _ hlabel ha =>
      rw [← hlabel.same.2.2.2.2.2]
      exact ha.mem_constants hn
    | second _ _ hlabel ha =>
      rw [← hlabel.same.2.2.2.2.2]
      exact ha.mem_constants hn
    | skipped _ _ hlabel =>
      rw [← hlabel.same.2.2.2.2.2]
      exact .inl hn

private theorem Walked.mem_constants {ls : List Line} {vs : List Visit} (h : Walked s ls vs t)
    (hn : name ∈ t.symbols.constants.names) :
    name ∈ s.symbols.constants.names ∨ ∃ l ∈ ls, name ∈ l.definitions := by
  induction h with
  | nil => exact .inl hn
  | ended => exact .inl hn
  | @cons s t u l ls vs _ hr _ ih =>
    rcases ih hn with hn | ⟨l', hl', hd⟩
    · exact (Line.mem_constants hr hn).imp_right fun hd => ⟨l, List.mem_cons_self .., hd⟩
    · exact .inr ⟨l', List.mem_cons_of_mem _ hl', hd⟩

theorem Walked.continues {ls : List Line} {vs : List Visit} (h : Walked s ls vs t) :
    s.symbols.Continues t.symbols :=
  (h.across (R := fun s t => s.symbols.Continues t.symbols) (fun _ => .refl _) (fun _ _ _ => .trans)
    fun _ _ hr => Line.Reaches.continues (.ok hr)).1

end Constants

/-- Tables that begin with others keep their values, unless a new constant has the name of an old label. -/
private theorem Symbols.Continues.keptIn {s t : Symbols} (h : s.Continues t)
    (hn : ∀ name ∈ s.labels.names, name ∈ t.constants.names → name ∈ s.constants.names) : s.KeptIn t := by
  obtain ⟨labels, hlabels⟩ := h.labels
  obtain ⟨constants, hconstants⟩ := h.constants
  intro name v hv
  unfold resolve at hv ⊢
  rw [Option.or_eq_some_iff] at hv ⊢
  rcases hv with hv | ⟨hc, hl⟩
  · rw [← hconstants]
    exact .inl (Bindings.value?_append_of_some hv _)
  · refine .inr ⟨?_, ?_⟩
    · have hold : name ∉ s.constants.names := fun hm =>
        Bindings.mem_names_iff.1 hm (Bindings.value?_eq_none_iff.1 hc)
      rcases hb : t.constants.binding? name with _ | b
      · exact Bindings.value?_eq_none_iff.2 hb
      · have hnew : name ∈ t.constants.names := Bindings.mem_names_iff.2 (by simp [hb])
        exact absurd (hn name (Bindings.mem_names_of_value? hl) hnew) hold
    · rw [← hlabels]
      exact Bindings.value?_append_of_some hl _

/-! ### Runs -/

/-- Both passes of a run that does not fail. -/
private theorem walks_of_run {s : State} {ls : List Line} (h : (run s ls).failure = none) :
    ∃ s₁ s₂, walk (s.start .first) ls = (s₁, none) ∧ walk s₁.turn ls = (s₂, none) ∧
      (run s ls).state.output = s₂.output := by
  unfold run at h ⊢
  rcases hw₁ : walk (s.start .first) ls with ⟨s₁, _ | e⟩
  · rw [hw₁] at h
    dsimp only at h ⊢
    rcases hw₂ : walk s₁.turn ls with ⟨s₂, _ | e⟩
    · exact ⟨s₁, s₂, rfl, hw₂, rfl⟩
    · rw [hw₂] at h
      cases h
  · rw [hw₁] at h
    cases h

/-- A run over more lines has the same code and the same symbols first, unless a constant in one of the new lines has
the name of a label that is there without them. -/
theorem run_append {s : State} {ls ls' : List Line} (h : (run s ls).failure = none)
    (h' : (run s (ls ++ ls')).failure = none) (hbefore : ∀ l ∈ ls, ∀ l' ∈ ls', l.Before l')
    (hn : ∀ l ∈ ls', ∀ name ∈ l.definitions, name ∉ (run s ls).state.symbols.labels.names) :
    (run s ls).state.output.toList <+: (run s (ls ++ ls')).state.output.toList ∧
      (run s ls).state.symbols.labels <+: (run s (ls ++ ls')).state.symbols.labels ∧
      (run s ls).state.symbols.constants <+: (run s (ls ++ ls')).state.symbols.constants := by
  obtain ⟨s₁, s₂, hs₁, hs₂, houtput⟩ := walks_of_run h
  obtain ⟨t₁, t₂, ht₁, ht₂, houtput'⟩ := walks_of_run h'
  have hsymbols : (run s ls).state.symbols = s₁.symbols := by rw [symbols_of_run, hs₁]
  have hsymbols' : (run s (ls ++ ls')).state.symbols = t₁.symbols := by rw [symbols_of_run, ht₁]
  rw [hsymbols] at hn
  -- The first pass is at the state `s₁` when it comes to the new lines.
  rw [walk_append hs₁] at ht₁
  have hrest := walk_eq_none_iff.1 ht₁
  have hcontinues := hrest.continues
  have hkept : s₁.symbols.KeptIn t₁.symbols := by
    refine hcontinues.keptIn fun name hl hc => (hrest.mem_constants hc).resolve_right ?_
    rintro ⟨l, hl', hd⟩
    exact hn l hl' name hd hl
  have hlabels : ∀ name v, s₁.symbols.labels.value? name = some v → t₁.symbols.labels.value? name = some v := by
    intro name v hv
    obtain ⟨new, hnew⟩ := hcontinues.labels
    rw [← hnew]
    exact Bindings.value?_append_of_some hv new
  have hwidths : s₁.WidthsFrom t₁ (ls.flatMap Line.body) := by
    intro mnemonic hm
    obtain ⟨l, hl, hm⟩ := List.mem_flatMap.1 hm
    refine hrest.lookup_widths fun l' hl' mnemonic' hm' => ?_
    have := hbefore l hl l' hl' mnemonic hm mnemonic' hm'
    omega
  have hturn : s₁.turn.Extends (ls.flatMap Line.body) t₁.turn :=
    ⟨rfl, rfl, hrest.base, rfl, rfl, rfl, hkept, hlabels, hwidths⟩
  -- So the second pass comes to the new lines with the code of the others.
  obtain ⟨t, ht, hextends⟩ := (walk_eq_none_iff.1 hs₂).extends hturn fun l hl u hu => List.mem_flatMap.2 ⟨l, hl, hu⟩
  rw [walk_append ht] at ht₂
  have hcode := (walk_eq_none_iff.1 ht₂).output_eq hextends.second'
  rw [hsymbols, hsymbols', houtput, houtput', hcode, hextends.output]
  exact ⟨List.prefix_append _ _, hcontinues.labels, hcontinues.constants⟩

/-! ### Lexemes -/

/-- The end of a source as the end of a line. -/
def Translation.continuing : Translation where
  continued := true

private theorem Token.translate_continuing {t : Token} (h : t.lexeme ≠ .eof) : t.translate .continuing = t := by
  obtain ⟨lexeme, index, file, line, column⟩ := t
  cases lexeme with
  | eof => exact absurd rfl h
  | _ => rfl

/-- If the end of a source becomes the end of a line, a line without a statement may come up behind the others. -/
private theorem Line.splitFrom_continuing {body ts : List Token} {stop : Token} (hstop : stop.lexeme = .eof)
    (hbody : ∀ t ∈ body, t.lexeme ≠ .eof) (hts : ∀ t ∈ ts, t.lexeme ≠ .eof) :
    ∃ blank, splitFrom body (ts ++ [stop.translate .continuing]) =
        (splitFrom body (ts ++ [stop])).map (translate .continuing) ++ blank ∧
      (blank = [] ∨ ∃ l : Line, blank = [l] ∧ l.statement? = none) := by
  have hsame : ∀ {body : List Token}, (∀ t ∈ body, t.lexeme ≠ .eof) →
      body.map (Token.translate .continuing) = body := by
    intro body hbody
    exact (List.map_congr_left fun t ht => Token.translate_continuing (hbody t ht)).trans (List.map_id _)
  have hnewline : (stop.translate .continuing).lexeme = .newline := by
    rw [Token.lexeme_translate, hstop]
    rfl
  induction ts generalizing body with
  | nil =>
    rw [List.nil_append, splitFrom_newline hnewline]
    cases body with
    | nil => exact ⟨[⟨[], stop.translate .continuing⟩], by simp [splitFrom, hstop], .inr ⟨_, rfl, rfl⟩⟩
    | cons b body =>
      refine ⟨[], ?_, .inl rfl⟩
      simp [splitFrom, hstop, translate, hsame hbody]
  | cons t ts ih =>
    have ht := hts t (List.mem_cons_self ..)
    have hts' : ∀ u ∈ ts, u.lexeme ≠ .eof := fun u hu => hts u (List.mem_cons_of_mem _ hu)
    rw [List.cons_append, List.cons_append]
    by_cases hbreak : t.lexeme = .newline
    · obtain ⟨blank, hsplit, hblank⟩ := @ih [] (by simp) hts'
      refine ⟨blank, ?_, hblank⟩
      rw [splitFrom_newline hbreak, splitFrom_newline hbreak, hsplit, List.map_cons, List.cons_append, translate,
        hsame hbody, Token.translate_continuing ht]
    · have hnext : ∀ u ∈ body ++ [t], u.lexeme ≠ .eof := by
        intro u hu
        rcases List.mem_append.1 hu with hu | hu
        · exact hbody u hu
        · rwa [List.mem_singleton.1 hu]
      rw [splitFrom_other hbreak ht, splitFrom_other hbreak ht]
      exact ih hnext hts'

/-- A source may end with a line break. -/
private theorem Session.runOn_eof {z : Session} {base : Option Int} {file : String} {ls : List Lexeme}
    (heof : .eof ∉ ls) :
    (z.runOn base file (ls ++ [.eof])).Agrees (z.runOn base file (ls ++ [.newline])) := by
  have hts : ∀ t ∈ bare file 0 ls, t.lexeme ≠ .eof := by
    intro t ht he
    rw [← map_lexeme_bare file 0 ls, ← he] at heof
    exact heof (List.mem_map_of_mem ht)
  obtain ⟨blank, hsplit, hblank⟩ := @Line.splitFrom_continuing [] (bare file 0 ls)
    ⟨.eof, 0 + ls.length, file, 0, 0⟩ rfl (by simp) hts
  have hlines : Line.split (bare file 0 (ls ++ [.newline])) =
      (Line.split (bare file 0 (ls ++ [.eof]))).map (Line.translate .continuing) ++ blank := by
    rw [bare_append, bare_append]
    exact hsplit
  have hrun : Mc6809.run (z.initial base) (Line.split (bare file 0 (ls ++ [.newline]))) =
      Mc6809.run (z.initial base) ((Line.split (bare file 0 (ls ++ [.eof]))).map (Line.translate .continuing)) := by
    rcases hblank with rfl | ⟨l, rfl, hl⟩
    · rw [hlines, List.append_nil]
    · rw [hlines, run_skip hl, List.append_nil]
  obtain ⟨hstate, hfails⟩ := run_map_translate (τ := .continuing) rfl rfl rfl (z.initial base)
    (Line.split (bare file 0 (ls ++ [.eof])))
  rw [initial_translate rfl ⟨fun _ => rfl, rfl, rfl⟩, ← hrun] at hstate hfails
  exact .of_translate rfl hstate hfails

/-- A line defines the same constants wherever it stands. -/
private theorem Line.definitions_translate {τ : Translation} (hname : τ.name = id) (l : Line) :
    (l.translate τ).definitions = l.definitions := by
  have hdefined : Action.defined? ∘ Action.translate τ = Action.defined? := by
    funext a
    cases a <;> simp [Action.translate, Action.defined?, hname]
  unfold definitions actions
  rw [Line.statement?_translate]
  cases l.statement? with
  | none => rfl
  | some st =>
    show (st.actions.map (Action.translate τ)).filterMap Action.defined? = st.actions.filterMap Action.defined?
    rw [List.filterMap_map, hdefined]

/-- The lines of a source define the same constants when they stand below another one. -/
private theorem Line.definitions_split_bare {file : String} {tokens : List Token} {ls : List Lexeme}
    (h : tokens.map erase = bare file 0 ls) (index : Nat) :
    ∀ l ∈ split (bare file index ls), ∃ l' ∈ split tokens, l.definitions = l'.definitions := by
  have herase : erase = Token.translate .erased := funext fun t => t.translate_erased.symm
  have hsplit : split (bare file index ls) =
      ((split tokens).map (translate .erased)).map (translate (Translation.erased.shifted index)) := by
    rw [← split_translate rfl, ← split_translate rfl, ← herase, h, bare_translate rfl rfl rfl rfl]
    exact congrArg split (congrArg (bare file · ls) (Nat.zero_add index).symm)
  intro l hl
  rw [hsplit, List.map_map] at hl
  obtain ⟨l', hl', rfl⟩ := List.mem_map.1 hl
  exact ⟨l', hl', (definitions_translate rfl _).trans (definitions_translate rfl l')⟩

namespace Session

variable {z z' z'' : Session} {base : Option Int} {file : String} {ls ls' : List Lexeme} {code code' : List UInt8}

/-- A run over lexemes that go on behind a line break. -/
private theorem gives_append (heof : .eof ∉ ls) (h : (z.runOn base file (ls ++ [.newline])).Gives z' code)
    (h' : (z.runOn base file (ls ++ .newline :: ls')).Gives z'' code')
    (hn : ∀ l ∈ Line.split (bare file (ls.length + 1) ls'), ∀ name ∈ l.definitions, name ∉ z'.labels.map Prod.fst) :
    code <+: code' ∧ z'.labels <+: z''.labels ∧ z'.constants <+: z''.constants := by
  let front := Line.split (bare file 0 (ls ++ [.newline]))
  let back := Line.split (bare file (ls.length + 1) ls')
  have hlines : z.runOn base file (ls ++ .newline :: ls') = Mc6809.run (z.initial base) (front ++ back) := by
    have hsplit := @split_bare_append (ls ++ [.newline]) (by simp) (by simpa using heof) file 0 ls'
    rw [List.append_assoc, List.length_append, Nat.zero_add] at hsplit
    exact congrArg _ hsplit
  have hbefore : ∀ l ∈ front, ∀ l' ∈ back, l.Before l' := by
    intro l hl l' hl' t ht t' ht'
    have hfirst := index_of_mem_bare (Line.body_subset hl t ht)
    have hsecond := index_of_mem_bare (Line.body_subset hl' t' ht')
    rw [List.length_append, List.length_singleton] at hfirst
    omega
  have hnames : (z.runOn base file (ls ++ [.newline])).state.symbols.labels.names = z'.labels.map Prod.fst := by
    rw [← h.labels]
    simp [Bindings.names, Bindings.pairs]
  rw [hlines] at h'
  obtain ⟨hcode, hlabels, hconstants⟩ := run_append h.failure h'.failure hbefore fun l hl name hd =>
    hnames ▸ hn l hl name hd
  rw [← h.output, ← h.labels, ← h.constants, ← h'.output, ← h'.labels, ← h'.constants]
  exact ⟨hcode, hlabels.map _, hconstants.map _⟩

end Session

/-! ### Sources -/

/-- If a source can be assembled, and so can the source with more text below it, then the code, the labels and the
constants of the former come first in those of the latter, in their order and with their values.  The constants that
are defined below must not have the names of its labels.  An `end` in the source is no exception, since nothing below
it counts. -/
theorem continuation_extends_results {z zA zC : Session} {a b file : String} {base : Option Int}
    {logA logC : List Report} {codeA codeC : List UInt8} (hA : z.assemble a base file = (zA, logA, .ok codeA))
    (hC : z.assemble (a ++ "\n" ++ b) base file = (zC, logC, .ok codeC))
    (hb : ∀ tokens, tokenize b file = .ok tokens → ∀ l ∈ Line.split tokens, ∀ name ∈ l.definitions,
      name ∉ zA.labels.map Prod.fst) :
    codeA <+: codeC ∧ zA.labels <+: zC.labels ∧ zA.constants <+: zC.constants := by
  obtain ⟨_, lsA, -, hlA, hgA⟩ := Session.gives_of_assemble hA
  obtain ⟨_, lsC, -, hlC, hgC⟩ := Session.gives_of_assemble hC
  have htext : (a ++ "\n" ++ b).toList = a.toList ++ '\n' :: b.toList := by simp
  rw [htext] at hlC
  have hend : AtLineEnd ('\n' :: b.toList) := avoids_cons.2 (by decide)
  have hnil : Replaces ('\n' :: b.toList) [] := .inr (by simp)
  cases hlC.parts (.inl hend) with
  | past _ hpast =>
    have hl := hpast [] hnil
    rw [List.append_nil] at hl
    cases hl.unique hlA
    rw [← hgA.output, ← hgA.labels, ← hgA.constants, ← hgC.output, ← hgC.labels, ← hgC.constants]
    exact ⟨List.prefix_rfl, List.prefix_rfl, List.prefix_rfl⟩
  | @split after ls ls' hleads hback =>
    have hl := hleads.lexes hnil (.eof after) fun _ => .eof after
    rw [List.append_nil] at hl
    cases hl.unique hlA
    obtain ⟨ls', rfl, hlb⟩ := lexes_feed.1 hback
    obtain ⟨tokens, ht, herase⟩ := tokensFrom_of_lexes hlb file 0 .start
    have htokens : tokenize b file = .ok tokens := by
      rw [tokenize, ht]
    refine Session.gives_append hleads.ne_eof ((Session.runOn_eof hleads.ne_eof).gives hgA) hgC fun l hl name hd => ?_
    obtain ⟨l', hl', hsame⟩ := Line.definitions_split_bare herase _ l hl
    exact hb tokens htokens l' hl' name (hsame ▸ hd)

/-- A source with a reference forward and one back, that ends in the middle of a line. -/
private def above : String :=
  "n = 1\np: lda q\nq: bra p"

/-- A source in which a constant takes the name of a label, but not of one above it. -/
private def below : String :=
  "r: ldx r\nr = n+1\n bra q\n"

theorem continuation_extends_results_own_names :
    ∃ zA logA zC logC, Session.assemble {} above none "main.asm" = (zA, logA, .ok [0xB6, 0x40, 0x03, 0x20, 0xFB]) ∧
      Session.assemble {} (above ++ "\n" ++ below) none "main.asm" =
        (zC, logC, .ok [0xB6, 0x40, 0x03, 0x20, 0xFB, 0xBE, 0x00, 0x02, 0x20, 0xF9]) ∧
      (∀ tokens, tokenize below "main.asm" = .ok tokens → ∀ l ∈ Line.split tokens, ∀ name ∈ l.definitions,
        name ∉ zA.labels.map Prod.fst) ∧
      zA.labels = [("p", 0x4000), ("q", 0x4003)] ∧ zC.labels = [("p", 0x4000), ("q", 0x4003), ("r", 0x4005)] ∧
      zA.labels <+: zC.labels ∧ zA.constants <+: zC.constants := by
  let zA := (Session.assemble {} above none "main.asm").1
  let zC := (Session.assemble {} (above ++ "\n" ++ below) none "main.asm").1
  let tokens := (tokenize below "main.asm").toOption.getD []
  have hresults : (Session.assemble {} above none "main.asm").2.2.toOption = some [0xB6, 0x40, 0x03, 0x20, 0xFB] ∧
      (Session.assemble {} (above ++ "\n" ++ below) none "main.asm").2.2.toOption =
        some [0xB6, 0x40, 0x03, 0x20, 0xFB, 0xBE, 0x00, 0x02, 0x20, 0xF9] ∧
      zA.labels = [("p", 0x4000), ("q", 0x4003)] ∧
      zC.labels = [("p", 0x4000), ("q", 0x4003), ("r", 0x4005)] := by
    decide +kernel
  obtain ⟨hcodeA, hcodeC, hlabelsA, hlabelsC⟩ := hresults
  have ht : tokenize below "main.asm" = .ok tokens := tokenize_eq_ok (by decide +kernel)
  have hnew : ∀ l ∈ Line.split tokens, ∀ name ∈ l.definitions, name ∉ ["p", "q"] := by
    decide +kernel
  have hb : ∀ tokens, tokenize below "main.asm" = .ok tokens → ∀ l ∈ Line.split tokens, ∀ name ∈ l.definitions,
      name ∉ zA.labels.map Prod.fst := by
    intro tokens' ht'
    cases ht.symm.trans ht'
    rw [hlabelsA]
    exact hnew
  have hA := Session.assemble_eq hcodeA
  have hC := Session.assemble_eq hcodeC
  obtain ⟨-, hprefix, hconstants⟩ := continuation_extends_results hA hC hb
  exact ⟨zA, _, zC, _, hA, hC, hb, hlabelsA, hlabelsC, hprefix, hconstants⟩

end Mc6809
