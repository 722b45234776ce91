import Mc6809.Proofs.Assembly.Floating
import Mc6809.Proofs.Layout

/-!
# Undefined symbols

The first pass counts a symbol that is not known yet as a placeholder.  What it counts as is without consequence
(`run_placeholder`): only what is settled is checked, decides on widths or is stored.  And no symbol stays
undefined, since the identifiers of a line are in the tables once both passes got over it
(`Walked.identifiers_bound`).
-/

namespace Mc6809

/-! ### The placeholder -/

private theorem State.move_of_distance {m : Displacement} (h : m.distance = 0) (s : State) :
    s.move m = { s with placeholder := m.placeholder } := by
  have hrow : Row.move m = id := by
    funext r
    simp [Row.move, h]
  have hnote : Note.move m = id := by
    funext n
    cases n <;> simp [Note.move, h]
  simp [move, h, hrow, hnote, Symbols.move_of_distance h]

/-- What a symbol counts as while it is not known makes no difference to a run. -/
theorem run_placeholder (s : State) (lines : List Line) (k : Int) :
    run { s with placeholder := k } lines =
      ⟨{ (run s lines).state with placeholder := k }, (run s lines).failure⟩ := by
  let m : Displacement := ⟨[], 0, k⟩
  have hmove : ∀ s : State, s.move m = { s with placeholder := k } := State.move_of_distance rfl
  have hrun := run_move (m := m) (s := s) (.inl rfl) (.inl rfl : _ ∨ ∀ l ∈ lines, l.Floats m.labels)
  simp only [hmove] at hrun
  rw [← hrun.1, ← hrun.2.eq_of_distance rfl]

namespace Session

/-- Assemble a source text where a symbol counts as `k` as long as it is not known. -/
def assembleAssuming (s : Session) (k : Int) (source : String) (base : Option Int) (file : String) :
    Session × List Report × Except Trouble (List UInt8) :=
  let base := base.getD s.base
  match seed s.defines with
  | .error d => (s, [], .error (.refused d))
  | .ok symbols =>
    match tokenize source file with
    | .error d => (s, [], .error (.refused d))
    | .ok tokens =>
      let lines := quotedLines source
      let r := Mc6809.run { base, symbols, placeholder := k } (Line.split tokens)
      let log := .tokens file tokens.length base :: r.state.notes.map .run
      let s := { s with last := some ⟨r.state, lines⟩ }
      match r.failure with
      | some f => (s, log, .error (trouble lines f))
      | none => (s, log, .ok r.state.output.toList)

private theorem assembleAssuming_zero (z : Session) (source : String) (base : Option Int) (file : String) :
    z.assembleAssuming 0 source base file = z.assemble source base file :=
  rfl

private theorem assembleAssuming_outcome (z : Session) (source : String) (base : Option Int) (file : String) (k : Int) :
    (z.assembleAssuming k source base file).2 = (z.assemble source base file).2 ∧
      (z.assembleAssuming k source base file).1.labels = (z.assemble source base file).1.labels ∧
      (z.assembleAssuming k source base file).1.constants = (z.assemble source base file).1.constants ∧
      (z.assembleAssuming k source base file).1.code = (z.assemble source base file).1.code ∧
      (z.assembleAssuming k source base file).1.listing = (z.assemble source base file).1.listing := by
  unfold assembleAssuming assemble
  cases seed z.defines with
  | error d => exact ⟨rfl, rfl, rfl, rfl, rfl⟩
  | ok symbols =>
    cases tokenize source file with
    | error d => exact ⟨rfl, rfl, rfl, rfl, rfl⟩
    | ok tokens =>
      have hrun := run_placeholder { base := base.getD z.base, symbols } (Line.split tokens) k
      dsimp only at hrun ⊢
      rw [hrun]
      cases (Mc6809.run { base := base.getD z.base, symbols } (Line.split tokens)).failure with
      | none => exact ⟨rfl, rfl, rfl, rfl, rfl⟩
      | some e => exact ⟨rfl, rfl, rfl, rfl, rfl⟩

end Session

/-! ### Names in the tables -/

/-- The names that have a value. -/
def Symbols.names (symbols : Symbols) : List String :=
  symbols.constants.names ++ symbols.labels.names

private theorem Symbols.mem_names_of_resolve {symbols : Symbols} {name : String} {v : Int}
    (h : symbols.resolve name = some v) : name ∈ symbols.names := by
  rcases Option.or_eq_some_iff.1 h with h | ⟨-, h⟩
  · exact List.mem_append_left _ (Bindings.mem_names_of_value? h)
  · exact List.mem_append_right _ (Bindings.mem_names_of_value? h)

/-- All of some names have a value. -/
def Symbols.Binds (symbols : Symbols) (names : List String) : Prop :=
  ∀ name ∈ names, name ∈ symbols.names

namespace Symbols.Binds

variable {symbols symbols' : Symbols} {names : List String}

private theorem refl (symbols : Symbols) : symbols.Binds symbols.names :=
  fun _ h => h

private theorem trans (h : symbols.Binds names) (h' : symbols'.Binds symbols.names) : symbols'.Binds names :=
  fun name hn => h' name (h name hn)

end Symbols.Binds

/-- The names in an expression whose value is settled are in the tables. -/
private theorem Expr.binds_of_settled {e : Expr} {symbols : Symbols} {k : Int}
    (h : (e.value symbols k).settled = true) :
    symbols.Binds e.names := by
  intro name hn
  obtain ⟨t, ht, hname⟩ := List.mem_filterMap.1 hn
  have hdefined : t.undefined? symbols = none := by
    simp only [value, List.all_eq_true, Option.isNone_iff_eq_none] at h
    exact h t ht
  unfold Term.name? at hname
  unfold Term.undefined? at hdefined
  split at hname
  · next name' ha =>
    cases hname
    simp only [ha] at hdefined
    split at hdefined
    · next hsome =>
      obtain ⟨v, hv⟩ := Option.isSome_iff_exists.1 hsome
      exact Symbols.mem_names_of_resolve hv
    · cases hdefined
  · cases hname

variable {s t : State} {a : Action} {as : List Action}

private theorem State.binds_addLabel (s : State) (name : String) (place : Token) :
    (s.addLabel name place).symbols.Binds s.symbols.names := by
  intro name' hn
  rcases List.mem_append.1 hn with hn | hn
  · exact List.mem_append_left _ hn
  · refine List.mem_append_right _ ?_
    rw [addLabel, Bindings.names_append]
    exact List.mem_append_left _ hn

private theorem State.binds_addConstant (s : State) (name : String) (place : Token) (n : Int) :
    (s.addConstant name place n).symbols.Binds s.symbols.names := by
  intro name' hn
  rcases List.mem_append.1 hn with hn | hn
  · refine List.mem_append_left _ ?_
    rw [addConstant, Bindings.names_append]
    exact List.mem_append_left _ hn
  · exact List.mem_append_right _ hn

/-- The second pass assembles settled values only. -/
private theorem Instruction.Encodes.settled {m : Mnemonic} {key : Int} {i : Instruction} {ws : List (Int × Int)}
    {mi : Machine.Instruction} (h : i.Encodes m key s ws mi) (hp : s.pass = .second) :
    ∀ e ∈ i.expr?, (s.value e).settled = true := by
  intro e he
  cases h with
  | immediate h => cases he; exact h.admits (.inr hp)
  | direct h => cases he; exact h (.inr hp)
  | extended h => cases he; exact h.admits (.inr hp)
  | shortAddress h => cases he; exact h (.inr hp)
  | longAddress h => cases he; exact h.admits (.inr hp)
  | pointer h => cases he; exact h.admits (.inr hp)
  | offset h => cases he; exact h.admits (.inr hp)
  | counter h => cases he; exact h.admits (.inr hp)
  | target h => cases he; exact h (.inr hp)
  | _ => cases he

private theorem Instruction.Encodes.binds {m : Mnemonic} {key : Int} {i : Instruction} {ws : List (Int × Int)}
    {mi : Machine.Instruction} (h : i.Encodes m key s ws mi) (hp : s.pass = .second) :
    s.symbols.Binds i.names := by
  have hexpr : s.symbols.Binds (i.expr?.toList.flatMap Expr.names) := by
    intro name hn
    obtain ⟨e, he, hn⟩ := List.mem_flatMap.1 hn
    exact Expr.binds_of_settled (h.settled hp e (Option.mem_toList.1 he)) name hn
  cases i with
  | branch f name target =>
    cases h with
    | branch h =>
      cases h with
      | known h =>
        intro name' hn
        cases List.mem_singleton.1 hn
        exact Symbols.mem_names_of_resolve h
      | unknown _ hp' => exact absurd hp hp'
  | _ => exact hexpr

namespace Action

/-- No action takes a name out of the tables. -/
private theorem Does.keeps_names (h : a.Does s t) : t.symbols.Binds s.symbols.names := by
  cases h with
  | define => exact s.binds_addConstant _ _ _
  | _ => exact .refl _

/-- A definition and an action of the second pass make use of settled values only. -/
private theorem Does.settled (h : a.Does s t) (hp : s.pass = .second ∨ a.defined?.isSome = true) :
    ∀ e ∈ a.exprs, (s.value e).settled = true := by
  intro e he
  cases h with
  | define hs =>
    cases List.mem_singleton.1 he
    exact hs
  | origin h =>
    cases List.mem_singleton.1 he
    exact h.admits (.inl rfl)
  | page h =>
    cases List.mem_singleton.1 he
    exact h.admits (.inl rfl)
  | reserve h =>
    cases List.mem_singleton.1 he
    exact h.admits (.inl rfl)
  | reserveOne h =>
    cases List.mem_singleton.1 he
    exact h.admits (.inl rfl)
  | reserveMany h hk =>
    rcases List.mem_cons.1 he with rfl | he
    · exact h.admits (.inl rfl)
    · cases List.mem_singleton.1 he
      exact hk.admits (.inl rfl)
  | fill h hk =>
    rcases List.mem_cons.1 he with rfl | he
    · exact h.admits (.inr (hp.resolve_right Bool.false_ne_true))
    · cases List.mem_singleton.1 he
      exact hk.admits (.inl rfl)
  | check h =>
    cases List.mem_singleton.1 he
    exact h.admits (.inr (hp.resolve_right Bool.false_ne_true))
  | value h =>
    cases List.mem_singleton.1 he
    exact h.admits (.inr (hp.resolve_right Bool.false_ne_true))
  | instruct h => exact h.settled (hp.resolve_right Bool.false_ne_true) e (Option.mem_toList.1 he)
  | _ => cases he

/-- The names that a definition or an action of the second pass makes use of are in the tables. -/
private theorem Does.binds (h : a.Does s t) (hp : s.pass = .second ∨ a.defined?.isSome = true) :
    t.symbols.Binds a.names := by
  have hexprs : t.symbols.Binds (a.exprs.flatMap Expr.names) := by
    intro name hn
    obtain ⟨e, he, hn⟩ := List.mem_flatMap.1 hn
    exact h.keeps_names name (Expr.binds_of_settled (h.settled hp e he) name hn)
  cases h with
  | @define name =>
    intro name' hn
    rcases List.mem_cons.1 hn with rfl | hn
    · refine List.mem_append_left _ ?_
      rw [State.note, State.addConstant, Bindings.names_append]
      exact List.mem_append_right _ (List.mem_singleton_self _)
    · exact hexprs name' (by simpa [exprs] using hn)
  | instruct h => exact h.binds (hp.resolve_right Bool.false_ne_true)
  | _ => exact hexprs

private theorem DoAll.keeps_names (h : DoAll s as t) : t.symbols.Binds s.symbols.names := by
  induction h with
  | nil => exact .refl _
  | cons h _ ih => exact h.keeps_names.trans ih

private theorem DoAll.binds (h : DoAll s as t) (hp : s.pass = .second ∨ ∀ a ∈ as, a.defined?.isSome = true) :
    t.symbols.Binds (as.flatMap names) := by
  induction h with
  | nil => exact fun _ hn => by cases hn
  | @cons s t u a as h hs ih =>
    have ha := h.binds (hp.imp_right fun hd => hd a (List.mem_cons_self ..))
    have has := ih (hp.imp h.frame.pass.trans fun hd b hb => hd b (List.mem_cons_of_mem _ hb))
    intro name hn
    rw [List.flatMap_cons] at hn
    rcases List.mem_append.1 hn with hn | hn
    · exact ha.trans hs.keeps_names name hn
    · exact has name hn

end Action

private theorem State.Labels.keeps_names {label : Option (String × Token)} (h : s.Labels label t) :
    t.symbols.Binds s.symbols.names := by
  cases h with
  | bound => exact s.binds_addLabel _ _
  | _ => exact .refl _

namespace Statement

variable {st : Statement}

private theorem Does.keeps_names (h : st.Does s t) : t.symbols.Binds s.symbols.names := by
  cases h with
  | first _ hl ha => exact hl.keeps_names.trans ha.keeps_names
  | @second t u _ _ hl ha =>
    show u.symbols.Binds _
    exact hl.keeps_names.trans ha.keeps_names
  | @skipped t _ _ hl =>
    show t.symbols.Binds _
    exact hl.keeps_names

/-- Once both passes got over a statement, the names in it are in the tables: after the first pass if it is a
definition, which the second one skips, and after the second pass otherwise. -/
private theorem Does.binds {s₁ s₂ t₁ t₂ : State} (h₁ : st.Does s₁ t₁) (h₂ : st.Does s₂ t₂) (hp₁ : s₁.pass = .first)
    (hp₂ : s₂.pass = .second) (hg : Action.Group st.constants st.actions) :
    t₁.symbols.Binds (st.actions.flatMap Action.names) ∨ t₂.symbols.Binds (st.actions.flatMap Action.names) := by
  obtain ⟨u, -, ha₁, -⟩ := h₁.of_first hp₁
  obtain ⟨-, u, rfl, ⟨hc, -⟩ | ⟨-, ha₂⟩⟩ := h₂.of_second hp₂
  · exact .inl (ha₁.binds (.inr (hg.defined_of_constants hc)))
  · exact .inr (ha₂.binds (.inl hp₂))

end Statement

namespace Walked

variable {ls : List Line} {vs vs₁ vs₂ : List Visit} {t₁ t₂ : State}

private theorem keeps_names (h : Walked s ls vs t) :
    t.symbols.Binds s.symbols.names ∧ ∀ v ∈ vs, t.symbols.Binds v.after.symbols.names := by
  obtain ⟨hst, hvs⟩ := h.across (R := fun s t => t.symbols.Binds s.symbols.names) (fun _ => .refl _)
    (fun _ _ _ => .trans) fun v _ hr => by
      rcases Line.run_eq_ok.1 hr with ⟨-, he⟩ | ⟨st, -, hd⟩
      · rw [he]
        exact .refl _
      · exact hd.keeps_names
  exact ⟨hst, fun v hv => (hvs v hv).2⟩

/-- The identifiers of the lines that both passes got over are in the tables. -/
theorem identifiers_bound (h₁ : Walked s ls vs₁ t₁) (h₂ : Walked t₁.turn ls vs₂ t₂) (hp : s.pass = .first)
    (he : s.ended = false) (hb : ∀ l ∈ ls, Precede l.body l.stop) :
    ∀ l ∈ Line.upToEnd ls, t₂.symbols.Binds (identifiers l.body) := by
  intro l hl
  obtain ⟨v₁, hv₁, rfl⟩ := List.mem_map.1 (h₁.map_line he ▸ hl)
  obtain ⟨v₂, hv₂, hline⟩ := List.mem_map.1 (h₂.map_line rfl ▸ hl)
  obtain ⟨k, hk⟩ := List.getElem?_of_mem hv₁
  have hmem : v₁.line ∈ ls := List.mem_of_getElem? (line_of_visits (h₁.visits_eq.symm ▸ hk))
  have hr₁ := (h₁.run_of_mem hv₁).2
  have hr₂ := (h₂.run_of_mem hv₂).2
  rw [hline] at hr₂
  rcases hst : v₁.line.statement? with _ | st
  · have hbody : v₁.line.body = [] := by
      unfold Line.statement? at hst
      split at hst
      · assumption
      · cases hst
    rw [hbody]
    exact fun _ hn => by cases hn
  · have hd₁ := Line.does_of_run hst hr₁
    have hd₂ := Line.does_of_run hst hr₂
    have hp₁ := (h₁.pass_of_mem hv₁).trans hp
    have hp₂ : v₂.before.pass = .second := h₂.pass_of_mem hv₂
    obtain ⟨-, -, -, hfault⟩ := hd₁.of_first hp₁
    rw [Line.identifiers_eq (hb _ hmem) hst hfault]
    rcases hd₁.binds hd₂ hp₁ hp₂ (Line.group_of_statement? hst) with hn | hn
    · exact (hn.trans (h₁.keeps_names.2 v₁ hv₁)).trans h₂.keeps_names.1
    · exact hn.trans (h₂.keeps_names.2 v₂ hv₂)

end Walked

/-- What a symbol counts as while it is not known makes no difference to the outcome: the same code, labels,
constants and listing, or the same error.  And if a source is assembled, then every identifier on its lines, up to
the one that ends it, is a constant or a label by then. -/
theorem undefined_symbols_never_count (z : Session) (source : String) (base : Option Int) (file : String) :
    z.assembleAssuming 0 source base file = z.assemble source base file ∧
      (∀ k : Int, (z.assembleAssuming k source base file).2 = (z.assemble source base file).2 ∧
        (z.assembleAssuming k source base file).1.labels = (z.assemble source base file).1.labels ∧
        (z.assembleAssuming k source base file).1.constants = (z.assemble source base file).1.constants ∧
        (z.assembleAssuming k source base file).1.code = (z.assemble source base file).1.code ∧
        (z.assembleAssuming k source base file).1.listing = (z.assemble source base file).1.listing) ∧
      ∀ z' log code, z.assemble source base file = (z', log, .ok code) →
        ∃ tokens, tokenize source file = .ok tokens ∧
          ∀ l ∈ Line.upToEnd (Line.split tokens), ∀ t ∈ l.body, ∀ name, t.lexeme = .identifier name →
            name ∈ z'.constants.map Prod.fst ∨ name ∈ z'.labels.map Prod.fst := by
  refine ⟨z.assembleAssuming_zero source base file, z.assembleAssuming_outcome source base file, ?_⟩
  intro z' log code h
  obtain ⟨r, tokens, symbols, s₁, s₂, hlast, -, hrun⟩ := Session.assemble_eq_ok h
  refine ⟨tokens, hrun.tokenized, fun l hl t ht name hname => ?_⟩
  have hbound := hrun.first.identifiers_bound hrun.second rfl rfl
    (fun l hl => Line.index_lt_stop (tokenize_index hrun.tokenized) hl) l hl
  have hmem : name ∈ r.state.symbols.names := by
    rw [hrun.symbols_eq]
    exact hbound name (List.mem_filterMap.2 ⟨t, ht, by rw [Token.identifier?, hname]⟩)
  have hconstants : z'.constants.map Prod.fst = r.state.symbols.constants.names := by
    simp [Session.constants, hlast, Bindings.pairs, Bindings.names]
  have hlabels : z'.labels.map Prod.fst = r.state.symbols.labels.names := by
    simp [Session.labels, hlast, Bindings.pairs, Bindings.names]
  rw [hconstants, hlabels]
  exact List.mem_append.1 hmem

/-- A source whose first statements make use of a label further on, in operands of every width. -/
private def forward : String :=
  "p: lda q\n fcb q-p\n bra q\nq: ldb q,pcr\n"

theorem undefined_symbols_never_count_forward :
    ∃ z' log tokens, ({ base := 0x1000 } : Session).assemble forward none "main.asm" =
        (z', log, .ok [0xB6, 0x10, 0x06, 0x06, 0x20, 0x00, 0xE6, 0x8C, 0xFD]) ∧
      (({ base := 0x1000 } : Session).assembleAssuming 200 forward none "main.asm").2 =
        (log, .ok [0xB6, 0x10, 0x06, 0x06, 0x20, 0x00, 0xE6, 0x8C, 0xFD]) ∧
      tokenize forward "main.asm" = .ok tokens ∧ (Line.upToEnd (Line.split tokens)).length = 4 ∧
      ∀ l ∈ Line.upToEnd (Line.split tokens), ∀ t ∈ l.body, ∀ name, t.lexeme = .identifier name →
        name ∈ z'.constants.map Prod.fst ∨ name ∈ z'.labels.map Prod.fst := by
  let z : Session := { base := 0x1000 }
  have hrun : (z.assemble forward none "main.asm").2.2.toOption =
      some [0xB6, 0x10, 0x06, 0x06, 0x20, 0x00, 0xE6, 0x8C, 0xFD] ∧
      ((tokenize forward "main.asm").toOption.map fun ts => (Line.upToEnd (Line.split ts)).length) = some 4 := by
    decide +kernel
  have hz := Session.assemble_eq hrun.1
  obtain ⟨-, hsame, hbound⟩ := undefined_symbols_never_count z forward none "main.asm"
  obtain ⟨tokens, ht, hnames⟩ := hbound _ _ _ hz
  have hlength := hrun.2
  rw [ht] at hlength
  refine ⟨_, _, tokens, hz, ?_, ht, Option.some.inj hlength, hnames⟩
  exact (hsame 200).1.trans (congrArg Prod.snd hz)

end Mc6809
