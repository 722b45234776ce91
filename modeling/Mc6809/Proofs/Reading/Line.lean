import Mc6809.Proofs.Reading.Operand

/-!
# What lines are read from

A script mentions tokens in the order in which they were read (`Script.From`).  So the identifiers of a line
without a fault are the names in its actions (`Line.identifiers_eq`), and whatever a line makes use of lies on the
line (`Line.within_of_statement?`).
-/

namespace Mc6809

/-! ### Scripts -/

/-- An action of a line: it can be refused at tokens of the line only, and what follows it comes no later than the
end of the line. -/
structure Action.Within (stop : Token) (ts : List Token) (a : Action) : Prop where
  tokens : ∀ t ∈ a.tokens, t ∈ ts
  following : ∀ i ∈ a.following, i ≤ stop.index

/-- A script that was read from tokens. Unless it has a fault, the names in its actions are the identifiers that
were read. -/
structure Script.From (stop : Token) (ts : List Token) (s : Script) : Prop where
  actions : ∀ a ∈ s.actions, a.Within stop ts
  takes : ∀ rest, s.ending = .ok rest → Takes ts rest [] (s.actions.flatMap Action.names)
  fault : ∀ f, s.ending = .error f → f.Within stop ts

namespace Script

variable {stop place : Token} {ts mid rest : List Token}

namespace From

private theorem done (stop : Token) (rest : List Token) : From stop rest ⟨[], .ok rest⟩ := by
  refine ⟨by simp, fun rest' h => ?_, by simp⟩
  cases h
  exact .refl _

private theorem error {f : Fault} (h : f.Within stop ts) : From stop ts ⟨[], .error f⟩ := by
  refine ⟨by simp, by simp, fun g hg => ?_⟩
  cases hg
  exact h

/-- An action in front of a script. -/
private theorem cons {a : Action} {s : Script} (ht : Takes ts mid a.tokens a.names) (hi : a.isInstruct = false)
    (h : From stop mid s) : From stop ts (s.cons a) := by
  refine ⟨fun b hb => ?_, fun rest hr => ?_, fun f hf => (h.fault f hf).mono ht.rest_mem⟩
  · rcases List.mem_cons.1 hb with rfl | hb
    · refine ⟨ht.mem, ?_⟩
      cases b with
      | instruct => cases hi
      | _ => simp [Action.following]
    · have := h.actions b hb
      exact ⟨fun t hm => ht.rest_mem t (this.tokens t hm), this.following⟩
  · exact (ht.trans (h.takes rest hr)).mono (by simp)

/-- A token in front that is no name. -/
private theorem skip {t : Token} {s : Script} (ht : t.identifier? = none) (h : From stop ts s) :
    From stop (t :: ts) s := by
  have hsub : ∀ u ∈ ts, u ∈ t :: ts := fun u hu => List.mem_cons_of_mem _ hu
  refine ⟨fun a ha => ?_, fun rest hr => ((h.takes rest hr).skip ht).mono (by simp), fun f hf => ?_⟩
  · exact ⟨fun u hu => hsub u ((h.actions a ha).tokens u hu), (h.actions a ha).following⟩
  · exact (h.fault f hf).mono hsub

end From

private theorem single_from {us : List Token} {action : Expr → Action} (hb : Precede ts stop)
    (hts : ∀ t ∈ ts, t ∈ us) (hi : ∀ e, (action e).isInstruct = false)
    (ha : ∀ e mid, Takes ts mid e.tokens e.names → Takes us mid (action e).tokens (action e).names) :
    From stop us (single stop ts action) := by
  unfold single
  split
  · next f hf => exact .error ((Expr.read_within hb hf).requiring.mono hts)
  · next e rest hr => exact .cons (ha e rest (Expr.read_takes hr)) (hi e) (.done stop rest)

/-- An action with one expression. -/
private theorem takes_single {a : Action} {e : Expr} (h : Takes ts rest e.tokens e.names)
    (ht : a.tokens = [e].flatMap Expr.tokens) (hn : a.names = [e].flatMap Expr.names) :
    Takes ts rest a.tokens a.names := by
  rw [ht, hn]
  simpa using h

/-- An action with two expressions and a comma between them. -/
private theorem takes_pair {a : Action} {e e' : Expr} {ts' : List Token} (h : Takes ts mid e.tokens e.names)
    (hcomma : afterLexeme? .comma mid = some ts') (h' : Takes ts' rest e'.tokens e'.names)
    (ht : a.tokens = [e, e'].flatMap Expr.tokens) (hn : a.names = [e, e'].flatMap Expr.names) :
    Takes ts rest a.tokens a.names := by
  rw [ht, hn]
  have := h.trans ((takes_of_afterLexeme? hcomma (by simp)).trans h')
  simpa using this

private theorem readVariables_from (hb : Precede ts stop) (hplace : place.identifier? = none) :
    From stop (place :: ts) (readVariables place stop ts) := by
  unfold readVariables
  split
  · next f hf => exact .skip hplace (.error (Expr.read_within hb hf).requiring)
  · next size mid hr =>
    have hsize := Expr.read_takes hr
    split
    · refine .cons ?_ rfl (.done stop mid)
      simpa [Action.tokens, Action.names, Action.exprs] using hsize.skip hplace
    · next ts' hcomma =>
      have hmid := takes_of_afterLexeme? hcomma (by simp)
      split
      · next f hf =>
        have hf' := Expr.read_within ((hb.mono hsize.rest_mem).mono hmid.rest_mem) hf
        refine .skip hplace (.cons (takes_single hsize rfl rfl) rfl (.error ?_))
        exact (hf'.mono hmid.rest_mem).requiring
      · next count rest hr' =>
        refine .cons ?_ rfl (.done stop rest)
        have := (hsize.trans (hmid.trans (Expr.read_takes hr'))).skip hplace
        simpa [Action.tokens, Action.names, Action.exprs] using this

private theorem readFill_from (hb : Precede ts stop) : From stop ts (readFill stop ts) := by
  unfold readFill
  split
  · next f hf => exact .error (Expr.read_within hb hf)
  · next value mid hr =>
    have hvalue := Expr.read_takes hr
    have hb' := hb.mono hvalue.rest_mem
    split
    · exact .cons (takes_single hvalue rfl rfl) rfl (.error (faultAt_within hb' _))
    · next ts' hcomma =>
      have hmid := takes_of_afterLexeme? hcomma (by simp)
      split
      · next f hf =>
        refine .cons (takes_single hvalue rfl rfl) rfl (.error ?_)
        exact ((Expr.read_within (hb'.mono hmid.rest_mem) hf).mono hmid.rest_mem).requiring
      · next count rest hr' =>
        exact .cons (takes_pair hvalue hcomma (Expr.read_takes hr') rfl rfl) rfl (.done stop rest)

private theorem readItem_takes {cell : Cell} {drops : Bool} {d : Directive} {a : Action}
    (h : readItem cell drops d place stop ts = .ok (a, rest)) :
    Takes ts rest a.tokens a.names ∧ a.isInstruct = false := by
  unfold readItem at h
  split at h
  · cases h
  · next t ts =>
    split at h
    · next s hs =>
      cases h
      exact ⟨(Takes.refl _).skip (Token.identifier?_eq_none (by simp [hs])), rfl⟩
    · split at h
      · next hzero =>
        cases h
        have hl : t.lexeme = .integer 0 := by simp_all
        exact ⟨((Takes.refl _).skip (Token.identifier?_eq_none (by simp [hl]))).mono (by simp [Action.tokens,
          Action.exprs]), rfl⟩
      · cases he : Expr.read stop (t :: ts) with
        | error f =>
          rw [he] at h
          cases h
        | ok p =>
          rw [he] at h
          cases h
          exact ⟨takes_single (Expr.read_takes he) rfl rfl, rfl⟩

private theorem readItem_within {cell : Cell} {drops : Bool} {d : Directive} {f : Fault} (hb : Precede ts stop)
    (h : readItem cell drops d place stop ts = .error f) : f.Within stop ts := by
  unfold readItem at h
  split at h
  · cases h
    exact faultAt_within hb _
  · next t ts =>
    split at h
    · cases h
    · split at h
      · cases h
      · cases he : Expr.read stop (t :: ts) with
        | ok p =>
          rw [he] at h
          cases h
        | error g =>
          rw [he] at h
          cases h
          exact Expr.read_within hb he

private theorem readItems_from {cell : Cell} {drops : Bool} {d : Directive} {afterText : Bool}
    (hb : Precede ts stop) : From stop ts (readItems cell drops d place stop afterText ts) := by
  fun_induction readItems cell drops d place stop afterText ts with
  | case1 afterText ts f h => exact .error (readItem_within hb h)
  | case2 afterText ts a rest h _ =>
    obtain ⟨ht, hi⟩ := readItem_takes h
    exact .cons ht hi (.done stop rest)
  | case3 afterText ts a mid h rest hcomma ih =>
    obtain ⟨ht, hi⟩ := readItem_takes h
    have ht' := ht.trans (takes_of_afterLexeme? hcomma (by simp))
    simp only [List.append_nil] at ht'
    exact .cons ht' hi (ih (hb.mono ht'.rest_mem))

/-- A definition up to the end of its expression. -/
private theorem takes_define {name : String} {t : Token} {e : Expr} {us : List Token}
    (hn : t.lexeme = .identifier name) (hequal : Takes ts us [] []) (h : Takes us rest e.tokens e.names) :
    Takes (t :: ts) rest (Action.define name t e).tokens (Action.define name t e).names := by
  have := (hequal.trans h).cons t
  rw [Token.identifier?, hn] at this
  exact this

private theorem readConstants_from (hb : Precede ts stop) : From stop ts (readConstants stop ts) := by
  fun_induction readConstants stop ts with
  | case1 => exact .error (faultAt_within hb _)
  | case2 t ts name _ _ =>
    have hts : ∀ u ∈ ts, u ∈ t :: ts := fun u hu => List.mem_cons_of_mem _ hu
    exact .error ((faultAt_within (hb.mono hts) _).mono hts)
  | case3 t ts name _ us hequal f hf =>
    have hus : ∀ u ∈ us, u ∈ t :: ts :=
      fun u hu => List.mem_cons_of_mem _ ((takes_of_afterLexeme? hequal (by simp)).rest_mem u hu)
    exact .error ((Expr.read_within (hb.mono hus) hf).mono hus).requiring
  | case4 t ts name hn us hequal e rest hr _ =>
    exact .cons (takes_define hn (takes_of_afterLexeme? hequal (by simp)) (Expr.read_takes hr)) rfl (.done stop rest)
  | case5 t ts name hn us hequal e mid hr rest hcomma ih =>
    have hdefine := takes_define hn (takes_of_afterLexeme? hequal (by simp)) (Expr.read_takes hr)
    have ht := hdefine.trans (takes_of_afterLexeme? hcomma (by simp))
    simp only [List.append_nil] at ht
    exact .cons ht rfl (ih (hb.mono ht.rest_mem))
  | case6 => exact .error (faultAt_within hb _)

private theorem readNamed_from {name : String} (hb : Precede ts stop) (hn : place.lexeme = .identifier name) :
    From stop (place :: ts) (readNamed name place stop ts) := by
  have hts : ∀ u ∈ ts, u ∈ place :: ts := fun u hu => List.mem_cons_of_mem _ hu
  unfold readNamed
  split
  · next us hequal =>
    have hus := takes_of_afterLexeme? hequal (by simp)
    split
    · next f hf =>
      exact .error (((Expr.read_within (hb.mono hus.rest_mem) hf).mono hus.rest_mem).mono hts).requiring
    · next e mid hr =>
      have hdefine := takes_define hn hus (Expr.read_takes hr)
      split
      · exact .cons hdefine rfl (.done stop mid)
      · next rest hcomma =>
        have hrest := takes_of_afterLexeme? hcomma (by simp)
        have ht := hdefine.trans hrest
        simp only [List.append_nil] at ht
        refine .cons ht rfl (readConstants_from ?_)
        exact ((hb.mono hus.rest_mem).mono (Expr.read_takes hr).rest_mem).mono hrest.rest_mem
  · next us _ hequ =>
    have hus := takes_of_afterLexeme? hequ (by simp)
    refine single_from (hb.mono hus.rest_mem) (fun u hu => hts u (hus.rest_mem u hu)) (fun _ => rfl) ?_
    exact fun e mid h => takes_define hn hus h
  · exact .error ⟨.inl (List.mem_cons_self ..), index_nextToken_le hb, by simp⟩

private theorem readDirective_from (hb : Precede ts stop) (hplace : place.identifier? = none) (d : Directive) :
    From stop (place :: ts) (readDirective d place stop ts) := by
  have hsingle : ∀ {action : Expr → Action}, (∀ e, (action e).isInstruct = false) →
      (∀ e, (action e).tokens = [e].flatMap Expr.tokens) → (∀ e, (action e).names = [e].flatMap Expr.names) →
      From stop ts (single stop ts action) :=
    fun hi ht hn => single_from hb (fun _ h => h) hi fun e _ h => takes_single h (ht e) (hn e)
  cases d with
  | const => exact (readConstants_from hb).skip hplace
  | equ => exact (readConstants_from hb).skip hplace
  | org => exact (hsingle (fun _ => rfl) (fun _ => rfl) fun _ => rfl).skip hplace
  | setdp => exact (hsingle (fun _ => rfl) (fun _ => rfl) fun _ => rfl).skip hplace
  | direct => exact (hsingle (fun _ => rfl) (fun _ => rfl) fun _ => rfl).skip hplace
  | rmb => exact (hsingle (fun _ => rfl) (fun _ => rfl) fun _ => rfl).skip hplace
  | ds => exact (hsingle (fun _ => rfl) (fun _ => rfl) fun _ => rfl).skip hplace
  | stop => exact (From.cons (a := .stop) (.refl _) rfl (.done _ ts)).skip hplace
  | var => exact readVariables_from hb hplace
  | fill => exact (readFill_from hb).skip hplace
  | db => exact (readItems_from hb).skip hplace
  | fcb => exact (readItems_from hb).skip hplace
  | byteList => exact (readItems_from hb).skip hplace
  | fcc => exact (readItems_from hb).skip hplace
  | dw => exact (readItems_from hb).skip hplace
  | fdb => exact (readItems_from hb).skip hplace
  | wordList => exact (readItems_from hb).skip hplace

private theorem readInstruction_from {m : Mnemonic} {mnemonic : Token} (hb : Precede ts stop)
    (hm : mnemonic.identifier? = none) : From stop (mnemonic :: ts) (readInstruction m mnemonic stop ts) := by
  unfold readInstruction
  split
  · next f hf => exact .error (Instruction.read_within hb hf)
  · next i rest hr =>
    have ht := (Instruction.read_takes hr).skip hm
    refine ⟨fun a ha => ?_, fun rest' h => ?_, by simp⟩
    · rw [List.mem_singleton] at ha
      subst ha
      refine ⟨ht.mem, fun next hnext => ?_⟩
      rw [Action.following, List.mem_singleton] at hnext
      rw [hnext]
      exact index_nextToken_le (hb.mono (Instruction.read_takes hr).rest_mem)
    · cases h
      have htake : Takes (mnemonic :: ts) rest [] i.names := ht.mono (by simp)
      simpa [Action.names] using htake

end Script

/-! ### Lines -/

namespace Statement

private theorem readBody_from {stop : Token} {ts : List Token} (hb : Precede ts stop) :
    (readBody stop ts).2.From stop ts := by
  unfold readBody
  split
  · exact .done stop []
  · next t ts =>
    have hb' : Precede ts stop := hb.mono fun u hu => List.mem_cons_of_mem _ hu
    split
    · next d hd => exact Script.readDirective_from hb' (Token.identifier?_eq_none (by simp [hd])) d
    · next m hm => exact Script.readInstruction_from hb' (Token.identifier?_eq_none (by simp [hm]))
    · next name hn => exact Script.readNamed_from hb' hn
    · exact .error (faultAt_within hb _)

end Statement

namespace Line

variable {l : Line} {st : Statement}

private theorem identifiers_operation (l : Line) : identifiers l.operation = identifiers l.body := by
  unfold operation
  split
  · next hb => rw [hb]
  · next t ts hb =>
    rw [hb]
    split
    · next name hn =>
      have hnone : t.identifier? = none := Token.identifier?_eq_none (by simp [hn])
      exact (List.filterMap_cons_none hnone).symm
    · rfl

private theorem precede_operation (hb : Precede l.body l.stop) : Precede l.operation l.stop :=
  hb.mono operation_subset

/-- A line without a fault was read to its end. -/
theorem ending_of_statement? (h : l.statement? = some st) (hf : st.fault = none) :
    (Statement.readBody l.stop l.operation).2.ending = .ok [] := by
  rw [(read_of_statement? h).2.2, Script.fault?] at hf
  split at hf
  · cases hf
  · assumption
  · cases hf

/-- The identifiers of a line without a fault are the names in its actions. -/
theorem identifiers_eq (hb : Precede l.body l.stop) (h : l.statement? = some st) (hf : st.fault = none) :
    identifiers l.body = st.actions.flatMap Action.names := by
  obtain ⟨used, hts, -, hn⟩ :=
    (Statement.readBody_from (precede_operation hb)).takes [] (ending_of_statement? h hf)
  rw [List.append_nil] at hts
  rw [(read_of_statement? h).2.1, ← hn, ← hts, identifiers_operation]

/-- Whatever a line makes use of lies on the line. -/
theorem within_of_statement? (hb : Precede l.body l.stop) (h : l.statement? = some st) :
    (∀ a ∈ st.actions, a.Within l.stop l.body) ∧ ∀ f, st.fault = some f → f.Within l.stop l.body := by
  obtain ⟨-, ha, hf⟩ := read_of_statement? h
  have hfrom := Statement.readBody_from (precede_operation hb)
  constructor
  · intro a hmem
    have := hfrom.actions a (ha ▸ hmem)
    exact ⟨fun t ht => operation_subset t (this.tokens t ht), this.following⟩
  · intro f hfault
    rw [hf, Script.fault?] at hfault
    split at hfault
    · next g hg =>
      cases hfault
      exact (hfrom.fault f hg).mono operation_subset
    · cases hfault
    · next rest _ hrest =>
      cases hfault
      have hmem := (hfrom.takes rest hrest).rest_mem
      exact ((faultAt_within ((precede_operation hb).mono hmem) _).mono hmem).mono operation_subset

end Line

end Mc6809
