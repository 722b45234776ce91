import Mc6809.Proofs.Assembly.Floating
import Mc6809.Proofs.Session

/-!
# Position independence

A source is relocatable if it sets no origin, keeps labels and constants apart, and depends on addresses only
through the distances between them (`Relocatable`).  Such a source gives the same code at every base, since a run
at another base is a run that is displaced as a whole (`run_relocated`).
-/

namespace Mc6809

/-! ### Relocatable sources -/

/-- The label that a line begins with. -/
def Line.label? (l : Line) : Option String :=
  l.statement?.bind fun st => st.label.map Prod.fst

/-- The labels of a source. -/
def Line.labels (lines : List Line) : List String :=
  lines.filterMap label?

/-- No label of a source has the name of one of some constants, and no line depends on where the source is
placed: there is no origin and no label that is defined as a constant, branches lead to labels, and in expressions
the signs of labels add up to one for the target of a relative address and to zero otherwise. -/
structure Relocatable (constants : List String) (lines : List Line) : Prop where
  constants : ∀ name ∈ constants, name ∉ Line.labels lines
  floats : ∀ l ∈ lines, ∀ a ∈ l.actions, a.Floats (Line.labels lines)

instance (labels : List String) (a : Action) : Decidable (a.Floats labels) :=
  decidable_of_iff
    (a.isOrigin = false ∧ (∀ name ∈ a.defined?, name ∉ labels) ∧ (∀ name ∈ a.targets, name ∈ labels) ∧
      ∀ e ∈ a.exprs, e.weight labels = a.share)
    ⟨fun ⟨ho, hd, ht, hw⟩ => ⟨ho, hd, ht, hw⟩, fun h => ⟨h.origin, h.defined, h.target, h.weight⟩⟩

instance (constants : List String) (lines : List Line) : Decidable (Relocatable constants lines) :=
  decidable_of_iff
    ((∀ name ∈ constants, name ∉ Line.labels lines) ∧
      ∀ l ∈ lines, ∀ a ∈ l.actions, a.Floats (Line.labels lines))
    ⟨fun ⟨hc, hf⟩ => ⟨hc, hf⟩, fun h => ⟨h.constants, h.floats⟩⟩

private theorem Line.mem_labels {lines : List Line} {l : Line} {st : Statement} {name : String} {place : Token}
    (hl : l ∈ lines) (hst : l.statement? = some st) (hlabel : st.label = some (name, place)) :
    name ∈ Line.labels lines :=
  List.mem_filterMap.2 ⟨l, hl, by simp [label?, hst, hlabel]⟩

private theorem Relocatable.line_floats {constants : List String} {lines : List Line}
    (h : Relocatable constants lines) :
    ∀ l ∈ lines, l.Floats (Line.labels lines) := by
  intro l hl st hst
  refine ⟨?_, fun a ha => h.floats l hl a ?_⟩
  · rintro ⟨name, place⟩ hlabel
    exact Line.mem_labels hl hst hlabel
  · rwa [Line.actions_of_statement? hst]

/-! ### Runs at another base -/

/-- A run over a relocatable source at another base fails if and only if the first one does.  It leaves the same
bytes and constants, and labels that are displaced by the distance between the bases. -/
theorem run_relocated {symbols : Symbols} {lines : List Line} (hlabels : symbols.labels = [])
    (h : Relocatable symbols.constants.names lines) {b b' : Int} {r r' : Run}
    (hr : r = run { base := b, symbols } lines) (hr' : r' = run { base := b', symbols } lines) :
    (r'.failure = none ↔ r.failure = none) ∧ r'.state.output = r.state.output ∧
      r'.state.symbols.constants = r.state.symbols.constants ∧
      r'.state.symbols.labels.pairs = r.state.symbols.labels.pairs.map fun p => (p.1, p.2 + (b' - b)) := by
  let m : Displacement := ⟨Line.labels lines, b' - b, 0⟩
  have hstart : State.move m { base := b, symbols } = { base := b', symbols } := by
    have hsymbols : symbols.move m = symbols := by
      rw [Symbols.move, hlabels, List.map_nil, ← hlabels]
    have hbase : b + (b' - b) = b' := by omega
    simp [State.move, m, hbase, hsymbols]
  have hapart : symbols.Apart m.labels := by
    refine ⟨?_, h.constants⟩
    rw [hlabels]
    intro name hn
    cases hn
  obtain ⟨hstate, hfails⟩ := run_move (m := m) (s := { base := b, symbols }) (.inr hapart) (.inr h.line_floats)
  rw [hstart, ← hr, ← hr'] at hstate hfails
  refine ⟨hfails.eq_none_iff, ?_⟩
  rw [hstate]
  refine ⟨rfl, rfl, ?_⟩
  simp [State.move, Symbols.move, Bindings.pairs, Binding.move, m]

/-- The source is relocatable next to the constants that the session defines beforehand. -/
def Session.Relocatable (z : Session) (source file : String) : Prop :=
  ∀ symbols tokens, seed z.defines = .ok symbols → tokenize source file = .ok tokens →
    Mc6809.Relocatable symbols.constants.names (Line.split tokens)

/-- A relocatable source is assembled at every base or at none, to the same code and constants, and the distance
between the bases is that between the addresses of each label. -/
theorem position_independent {z : Session} {source file : String} (h : z.Relocatable source file) (b b' : Int)
    (code : List UInt8) :
    ((z.assemble source (some b) file).2.2 = .ok code ↔ (z.assemble source (some b') file).2.2 = .ok code) ∧
      ((z.assemble source (some b) file).2.2 = .ok code →
        (z.assemble source (some b') file).1.constants = (z.assemble source (some b) file).1.constants ∧
        (z.assemble source (some b') file).1.labels =
          (z.assemble source (some b) file).1.labels.map fun p => (p.1, p.2 + (b' - b))) := by
  cases hseed : Session.seed z.defines with
  | error d => simp [Session.assemble, hseed]
  | ok symbols =>
    cases ht : tokenize source file with
    | error d => simp [Session.assemble, hseed, ht]
    | ok tokens =>
      obtain ⟨hlast, hresult⟩ : (z.assemble source (some b) file).1.last = _ ∧ _ :=
        Session.assemble_of_run hseed ht
      obtain ⟨hlast', hresult'⟩ : (z.assemble source (some b') file).1.last = _ ∧ _ :=
        Session.assemble_of_run hseed ht
      generalize hr : run { base := (some b).getD z.base, symbols } (Line.split tokens) = r at hlast hresult
      generalize hr' : run { base := (some b').getD z.base, symbols } (Line.split tokens) = r' at hlast' hresult'
      obtain ⟨hfailure, houtput, hconstants, hlabels⟩ :=
        run_relocated (Session.labels_of_seed hseed) (h symbols tokens hseed ht) hr.symm hr'.symm
      rw [hresult, hresult', Session.constants, Session.constants, Session.labels, Session.labels, hlast, hlast']
      cases hf : r.failure with
      | none =>
        rw [hfailure.2 hf]
        dsimp only
        rw [houtput, hconstants]
        exact ⟨Iff.rfl, fun _ => ⟨rfl, hlabels⟩⟩
      | some e =>
        have hne : r'.failure ≠ none := by simp [hfailure, hf]
        obtain ⟨e', he'⟩ := Option.ne_none_iff_exists'.1 hne
        simp [he']

/-- A source with branches in both directions, a relative address, and distances between labels as data and as a
constant. -/
private def floating : String :=
  "p: lbra q\n leay q,pcr\n fcb q-p\nq: bra p\nsize = q-p\n lda #size+n\n"

theorem position_independent_floating :
    ({ defines := [("n", 4)] } : Session).Relocatable floating "main.asm" ∧
      (({ defines := [("n", 4)] } : Session).assemble floating (some 0x1000) "main.asm").2.2 =
        .ok [0x16, 0x00, 0x05, 0x31, 0x8D, 0x00, 0x01, 0x08, 0x20, 0xF6, 0x86, 0x0C] ∧
      (({ defines := [("n", 4)] } : Session).assemble floating (some (-7)) "main.asm").2.2 =
        .ok [0x16, 0x00, 0x05, 0x31, 0x8D, 0x00, 0x01, 0x08, 0x20, 0xF6, 0x86, 0x0C] ∧
      (({ defines := [("n", 4)] } : Session).assemble floating (some (-7)) "main.asm").1.constants =
        [("n", 4), ("size", 8)] ∧
      (({ defines := [("n", 4)] } : Session).assemble floating (some (-7)) "main.asm").1.labels =
        [("p", -7), ("q", 1)] := by
  let z : Session := { defines := [("n", 4)] }
  have hrun : ((Session.seed z.defines).toOption.bind fun symbols => (tokenize floating "main.asm").toOption.map
        fun tokens => decide (Relocatable symbols.constants.names (Line.split tokens))) = some true ∧
      (z.assemble floating (some 0x1000) "main.asm").2.2.toOption =
        some [0x16, 0x00, 0x05, 0x31, 0x8D, 0x00, 0x01, 0x08, 0x20, 0xF6, 0x86, 0x0C] ∧
      (z.assemble floating (some 0x1000) "main.asm").1.constants = [("n", 4), ("size", 8)] ∧
      (z.assemble floating (some 0x1000) "main.asm").1.labels = [("p", 0x1000), ("q", 0x1008)] := by decide +kernel
  obtain ⟨hfloats, hcode, hconstants, hlabels⟩ := hrun
  have hz : z.Relocatable floating "main.asm" := by
    intro symbols tokens hseed ht
    rw [hseed, ht] at hfloats
    exact of_decide_eq_true (Option.some.inj hfloats)
  have hok := congrArg (·.2.2) (Session.assemble_eq hcode)
  obtain ⟨hsame, hmoved⟩ := position_independent hz 0x1000 (-7)
    [0x16, 0x00, 0x05, 0x31, 0x8D, 0x00, 0x01, 0x08, 0x20, 0xF6, 0x86, 0x0C]
  obtain ⟨hconstants', hlabels'⟩ := hmoved hok
  rw [hconstants] at hconstants'
  rw [hlabels] at hlabels'
  exact ⟨hz, hok, hsame.1 hok, hconstants', hlabels'⟩

end Mc6809
