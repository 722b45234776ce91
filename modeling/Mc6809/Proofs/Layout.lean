import Mc6809.Proofs.Session

/-!
# The layout of the output

The rows of a listing lie one after the other from the base on, apart from the gaps that origins make (`Laid`,
`Walked.laid`).  The first pass binds the labels at its own addresses (`Walked.labels_eq`).  These are the
addresses of the rows, since the second pass fails on a label that is not where the first one put it
(`Walked.labels_again`), whether or not the passes agree on the way between labels.
-/

namespace Mc6809

/-! ### Lines that are carried out -/

/-- The lines of a source up to the one that ends it. -/
def Line.upToEnd : List Line → List Line
  | [] => []
  | l :: ls => if l.stops then [l] else l :: upToEnd ls

variable {s t : State} {ls : List Line} {vs : List Visit}

/-- A walk that comes to its end gets over the same lines in either pass. -/
theorem Walked.map_line (h : Walked s ls vs t) (he : s.ended = false) : vs.map Visit.line = Line.upToEnd ls := by
  induction h with
  | nil => rfl
  | ended he' =>
    rw [he] at he'
    cases he'
  | @cons s t u l ls vs _ hr hw ih =>
    have hended : t.ended = l.stops := by
      rw [Line.ended_of_run hr, he, Bool.false_or]
    rw [List.map_cons, Line.upToEnd]
    cases hstops : l.stops with
    | true =>
      have hnil : vs = [] := by
        rw [← hw.visits_eq, visits_of_ended (hended.trans hstops)]
      rw [hnil, if_pos rfl, List.map_nil]
    | false => rw [ih (hended.trans hstops), if_neg Bool.false_ne_true]

/-! ### Addresses -/

/-- Statements and their rows, one after the other from an address on. -/
inductive Laid (symbols : Symbols) : Int → List (Statement × Row) → Prop
  | nil (address : Int) : Laid symbols address []
  | cons {st : Statement} {address : Int} {data : List UInt8} {es : List (Statement × Row)}
      (h : Laid symbols (st.addressAfter symbols address data) es) :
      Laid symbols address ((st, ⟨address, data, st.first.line⟩) :: es)

namespace Laid

variable {symbols : Symbols} {address : Int} {es : List (Statement × Row)}

private theorem address_of_head? (h : Laid symbols address es) {e : Statement × Row} (he : es.head? = some e) :
    e.2.address = address := by
  cases h with
  | nil => cases he
  | cons =>
    cases he
    rfl

/-- The address of each row follows from the one before it. -/
private theorem address_succ (h : Laid symbols address es) {k : Nat} {e e' : Statement × Row} (he : es[k]? = some e)
    (he' : es[k + 1]? = some e') : e'.2.address = e.1.addressAfter symbols e.2.address e.2.data := by
  induction h generalizing k with
  | nil => simp at he
  | cons h ih =>
    cases k with
    | zero =>
      cases he
      exact h.address_of_head? (List.head?_eq_getElem? ▸ he')
    | succ k => exact ih he he'

theorem line_of_mem (h : Laid symbols address es) {e : Statement × Row} (he : e ∈ es) :
    e.2.line = e.1.first.line := by
  induction h with
  | nil => cases he
  | cons _ ih =>
    rcases List.mem_cons.1 he with rfl | he
    · rfl
    · exact ih he

end Laid

/-- The second pass lays out its rows from its program counter on. -/
theorem Walked.laid (h : Walked s ls vs t) (hp : s.pass = .second) :
    Laid s.symbols s.pc (vs.flatMap Visit.entries) := by
  induction h with
  | nil => exact .nil _
  | ended => exact .nil _
  | @cons s t u l ls vs _ hr _ ih =>
    have ht := ih ((Line.pass_of_run hr).trans hp)
    rw [List.flatMap_cons]
    rcases hl : l.statement? with _ | st
    · cases Line.eq_of_run hl hr
      simpa [Visit.entries, hl] using ht
    · have hd := Line.does_of_run hl hr
      obtain ⟨data, hout, -, hpc⟩ := hd.row hp (Line.group_of_statement? hl)
      have hdata : Visit.data ⟨l, s, t⟩ = data := Visit.data_of_append hout
      have hentries : Visit.entries ⟨l, s, t⟩ = [(st, ⟨s.pc, data, st.first.line⟩)] := by
        simp [Visit.entries, hl, hdata]
      rw [hpc, hd.symbols_of_second hp (Line.group_of_statement? hl)] at ht
      rw [hentries]
      exact .cons ht

theorem Walked.map_fst_entries (h : Walked s ls vs t) (he : s.ended = false) :
    (vs.flatMap Visit.entries).map Prod.fst = (Line.upToEnd ls).filterMap Line.statement? := by
  rw [← h.map_line he]
  clear h
  induction vs with
  | nil => rfl
  | cons v vs ih =>
    rw [List.flatMap_cons, List.map_append, ih, List.map_cons, List.filterMap_cons, Visit.entries]
    cases v.line.statement? <;> rfl

/-- The bytes of the rows are the output. -/
theorem Walked.output_eq_entries (h : Walked s ls vs t) (hp : s.pass = .second) :
    t.output.toList = s.output.toList ++ ((vs.flatMap Visit.entries).map Prod.snd).flatMap Row.data := by
  rw [List.flatMap_map, List.flatMap_assoc]
  refine h.appends (f := fun s => s.output.toList) fun v hv hr => ?_
  rw [(Visit.output_and_listing ((h.pass_of_mem hv).trans hp) hr).1, Visit.entries]
  rcases hl : v.line.statement? with _ | st
  · have hdata : v.data = [] := Visit.data_of_append (by simp [Line.eq_of_run hl hr])
    simp [hdata]
  · simp

/-! ### Labels -/

/-- The name that a statement at an address gives to the address, if it begins with a label. -/
def Statement.labelAt? (st : Statement) (address : Int) : Option (String × Int) :=
  match st.first.lexeme with
  | .label name => some (name, address)
  | _ => none

private theorem Line.labelAt?_of_statement? {l : Line} {st : Statement} (h : l.statement? = some st) (address : Int) :
    st.labelAt? address = st.label.map fun p => (p.1, address) := by
  have hlabel := (Line.label_of_statement? h).2
  unfold Statement.labelAt?
  split
  · next name hn => rw [(hlabel name st.first).2 ⟨hn, rfl⟩, Option.map_some]
  · next hn =>
    rcases hs : st.label with _ | ⟨name, place⟩
    · rfl
    · exact absurd ((hlabel name place).1 hs).1 (hn name)

private theorem State.Labels.pairs_of_first {label : Option (String × Token)} (h : s.Labels label t)
    (hp : s.pass = .first) :
    t.symbols.labels.pairs = s.symbols.labels.pairs ++ (label.map fun p => (p.1, s.pc)).toList := by
  cases h with
  | absent => simp
  | bound => simp [State.addLabel, Bindings.pairs]
  | found hp' =>
    rw [hp] at hp'
    cases hp'

namespace Visit

/-- The label of a line, at the address of its row. -/
def labels (v : Visit) : List (String × Int) :=
  v.entries.filterMap fun e => e.1.labelAt? e.2.address

theorem labels_of_statement? {v : Visit} {st : Statement} (hl : v.line.statement? = some st) :
    v.labels = (st.label.map fun p => (p.1, v.before.pc)).toList := by
  rw [labels, entries, hl, ← Line.labelAt?_of_statement? hl]
  cases hs : st.labelAt? v.before.pc <;> simp [hs]

theorem labels_of_none {v : Visit} (hl : v.line.statement? = none) : v.labels = [] := by
  simp [labels, entries, hl]

private theorem labels_of_first {v : Visit} (hp : v.before.pass = .first) (hr : v.line.run v.before = .ok () v.after) :
    v.after.symbols.labels.pairs = v.before.symbols.labels.pairs ++ v.labels := by
  rcases hl : v.line.statement? with _ | st
  · rw [labels_of_none hl, Line.eq_of_run hl hr, List.append_nil]
  · obtain ⟨u, hlabel, ha, -⟩ := (Line.does_of_run hl hr).of_first hp
    rw [ha.frame.labels, hlabel.pairs_of_first hp, labels_of_statement? hl]

/-- A line that the second pass gets over has its label where the first pass had it. -/
private theorem Settled.labels_again {v₁ v₂ : Visit} (hv : v₁.Settled t) (h : State.Retraces t v₁.before v₂.before)
    (hl : v₂.line = v₁.line) (hr : v₂.line.run v₂.before = .ok () v₂.after) : v₂.labels = v₁.labels := by
  rcases hs : v₁.line.statement? with _ | st
  · rw [labels_of_none hs, labels_of_none (hl ▸ hs)]
  · have hs₂ : v₂.line.statement? = some st := hl ▸ hs
    rw [labels_of_statement? hs, labels_of_statement? hs₂]
    rcases hlabel : st.label with _ | ⟨name, place⟩
    · rfl
    · have hfirst := hv.labels name _ ((Line.does_of_run hs hv.run).label_of_first hv.pass hlabel)
      have hsecond := (Line.does_of_run hs₂ hr).label_of_second h.pass hlabel
      rw [h.symbols, hfirst, Option.some.injEq] at hsecond
      rw [hsecond]

end Visit

namespace Walked

/-- The first pass binds the labels of its lines in their order. -/
theorem labels_eq (h : Walked s ls vs t) (hp : s.pass = .first) :
    t.symbols.labels.pairs = s.symbols.labels.pairs ++ vs.flatMap Visit.labels :=
  h.appends (f := fun s => s.symbols.labels.pairs) fun _ hv hr =>
    Visit.labels_of_first ((h.pass_of_mem hv).trans hp) hr

/-- The second pass meets the labels of the first one, at the same addresses. -/
theorem labels_again {vs₂ : List Visit} {u : State} (h : Walked s ls vs t) (hp : s.pass = .first)
    (he : s.ended = false) (hapart : ls.Pairwise Line.Before) (h₂ : Walked t.turn ls vs₂ u) :
    vs₂.flatMap Visit.labels = vs.flatMap Visit.labels := by
  have hlength : vs₂.length = vs.length := by
    simpa using congrArg List.length ((h₂.map_line rfl).trans (h.map_line he).symm)
  -- Both passes get over the same lines, so the labels can be compared line by line.
  rw [List.flatMap_def, List.flatMap_def]
  congr 1
  apply List.ext_getElem?
  intro k
  rw [List.getElem?_map, List.getElem?_map]
  rcases hk : vs₂[k]? with _ | v₂
  · rw [List.getElem?_eq_none (hlength ▸ List.getElem?_eq_none_iff.1 hk)]
  · obtain ⟨v₁, hv₁, hl, hset, hR, -⟩ := h.retraces hp he hapart (k := k) (h₂.visits_eq ▸ hk)
    have hagain := hset.labels_again hR hl (h₂.run_of_mem (List.mem_of_getElem? hk)).2
    rw [hv₁, Option.map_some, Option.map_some, hagain]

end Walked

/-- Whatever a source is assembled to, its listing has a row for each statement up to the end of the source, and
the bytes of the rows are the code.  The first row is at the base, and each other one right after the row before
it or, if the statement of that row is an origin, at the value of the origin.  The labels, in the order of their
definition, are those that statements begin with, each with the address of its row. -/
theorem listing_lays_out_code {z z' : Session} {source file : String} {base : Option Int} {log : List Report}
    {code : List UInt8} (h : z.assemble source base file = (z', log, .ok code)) :
    ∃ r tokens, ∃ entries : List (Statement × Row), z'.last = some r ∧ tokenize source file = .ok tokens ∧
      entries.map Prod.fst = (Line.upToEnd (Line.split tokens)).filterMap Line.statement? ∧
      entries.map Prod.snd = r.state.listing.toList ∧
      (∀ e ∈ entries, e.2.line = e.1.first.line) ∧
      r.state.listing.toList.flatMap Row.data = code ∧
      (∀ e, entries.head? = some e → e.2.address = base.getD z.base) ∧
      (∀ (k : Nat) (e e' : Statement × Row), entries[k]? = some e → entries[k + 1]? = some e' →
        e'.2.address = match e.1.origin? with
          | some origin => (origin.value r.state.symbols 0).total
          | none => e.2.address + e.2.data.length) ∧
      z'.labels = entries.filterMap fun e => e.1.labelAt? e.2.address := by
  obtain ⟨r, tokens, symbols, s₁, s₂, hlast, hcode, hrun⟩ := Session.assemble_eq_ok h
  have hapart := Line.split_apart (tokenize_index hrun.tokenized)
  have hsymbols : r.state.symbols = s₁.symbols :=
    hrun.symbols_eq.trans (hrun.first.keeps rfl rfl hapart hrun.second).1
  have hlaid := hrun.second.laid rfl
  have hrows : r.state.listing.toList = ((z.secondPass source base file).flatMap Visit.entries).map Prod.snd :=
    hrun.listing_eq ▸ hrun.second.listing_eq rfl
  refine ⟨r, tokens, (z.secondPass source base file).flatMap Visit.entries, hlast, hrun.tokenized,
    hrun.second.map_fst_entries rfl, hrows.symm, fun e he => hlaid.line_of_mem he, ?_, ?_, ?_, ?_⟩
  · rw [hrows, hcode, hrun.output_eq, hrun.second.output_eq_entries rfl]
    rfl
  · intro e he
    exact (hlaid.address_of_head? he).trans hrun.first.base
  · intro k e e' he he'
    rw [hsymbols]
    exact hlaid.address_succ he he'
  · have hempty : (z.start base symbols).symbols.labels = [] := Session.labels_of_seed hrun.seeded
    rw [Session.labels, hlast, List.filterMap_flatMap]
    show r.state.symbols.labels.pairs = (z.secondPass source base file).flatMap Visit.labels
    rw [hsymbols, hrun.first.labels_eq rfl, hempty, hrun.first.labels_again rfl rfl hapart hrun.second]
    rfl

/-- A source with labels on both sides of an origin, which a configured constant gives, and a line after its end.
-/
private def acrossOrigin : String :=
  "p: nop\n org n\nq: bra p\n end\n nop\n"

theorem listing_lays_out_code_across_origin :
    ∃ z' log r, ∃ entries : List (Statement × Row),
      ({ base := 0, defines := [("n", 9)] } : Session).assemble acrossOrigin (some 0x10) "main.asm" =
        (z', log, .ok [0x12, 0x20, 0x05]) ∧ z'.last = some r ∧
      r.state.listing.toList =
        [⟨0x10, [0x12], 1⟩, ⟨0x11, [], 2⟩, ⟨9, [0x20, 0x05], 3⟩, ⟨0x0B, [], 4⟩] ∧
      entries.map Prod.snd = r.state.listing.toList ∧
      (∀ (k : Nat) (e e' : Statement × Row), entries[k]? = some e → entries[k + 1]? = some e' →
        e'.2.address = match e.1.origin? with
          | some origin => (origin.value r.state.symbols 0).total
          | none => e.2.address + e.2.data.length) ∧
      z'.labels = [("p", 0x10), ("q", 9)] ∧
      z'.labels = entries.filterMap fun e => e.1.labelAt? e.2.address := by
  let z : Session := { base := 0, defines := [("n", 9)] }
  have hrun : (z.assemble acrossOrigin (some 0x10) "main.asm").2.2.toOption = some [0x12, 0x20, 0x05] ∧
      (z.assemble acrossOrigin (some 0x10) "main.asm").1.last.map (·.state.listing.toList) =
        some [⟨0x10, [0x12], 1⟩, ⟨0x11, [], 2⟩, ⟨9, [0x20, 0x05], 3⟩, ⟨0x0B, [], 4⟩] ∧
      (z.assemble acrossOrigin (some 0x10) "main.asm").1.labels = [("p", 0x10), ("q", 9)] := by decide +kernel
  obtain ⟨hcode, hrows, hlabels⟩ := hrun
  have hz := Session.assemble_eq hcode
  obtain ⟨r, tokens, entries, hlast, -, -, hlisting, -, -, -, hnext, hlabelled⟩ := listing_lays_out_code hz
  rw [hlast, Option.map_some, Option.some.injEq] at hrows
  exact ⟨_, _, r, entries, hz, hlast, hrows, hlisting, hnext, hlabels, hlabelled⟩

end Mc6809
