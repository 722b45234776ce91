import Mc6809.Proofs.Passes
import Mc6809.Proofs.Assembly.Row

/-!
# Assembling without a failure

What a session does when it assembles a source without a failure: both passes come to their ends
(`Session.assemble_eq_ok`), and the bytes and rows of the result are those of the lines of the second pass, in
their order (`Walked.output_eq`, `Walked.listing_eq`).
-/

namespace Mc6809

/-! ### What a line of the second pass leaves -/

namespace Visit

/-- The bytes that a line appended to the output. -/
def data (v : Visit) : List UInt8 :=
  v.after.output.toList.drop v.before.output.size

/-- The statement of a line with its row, if the line has a statement. -/
def entries (v : Visit) : List (Statement × Row) :=
  v.line.statement?.toList.map fun st => (st, ⟨v.before.pc, v.data, st.first.line⟩)

theorem data_of_append {v : Visit} {bytes : List UInt8}
    (h : v.after.output.toList = v.before.output.toList ++ bytes) : v.data = bytes := by
  rw [data, h]
  exact List.drop_left' (by simp)

/-- A line of the second pass appends its bytes and records its row. -/
theorem output_and_listing {v : Visit} (hp : v.before.pass = .second) (hr : v.line.run v.before = .ok () v.after) :
    v.after.output.toList = v.before.output.toList ++ v.data ∧
      v.after.listing.toList = v.before.listing.toList ++ v.entries.map Prod.snd := by
  rcases Line.run_eq_ok.1 hr with ⟨hl, he⟩ | ⟨st, hl, hd⟩
  · have hdata : v.data = [] := data_of_append (by simp [he])
    rw [hdata, entries, hl, he]
    simp
  · obtain ⟨data, hout, hlist, -⟩ := hd.row hp (Line.group_of_statement? hl)
    have hdata := data_of_append hout
    rw [hdata, entries, hl, hdata]
    exact ⟨hout, hlist⟩

end Visit

namespace Walked

variable {s t : State} {ls : List Line} {vs : List Visit}

theorem output_eq (h : Walked s ls vs t) (hp : s.pass = .second) :
    t.output.toList = s.output.toList ++ vs.flatMap Visit.data :=
  h.appends (f := fun s => s.output.toList) fun _ hv hr =>
    (Visit.output_and_listing ((h.pass_of_mem hv).trans hp) hr).1

theorem listing_eq (h : Walked s ls vs t) (hp : s.pass = .second) :
    t.listing.toList = s.listing.toList ++ (vs.flatMap Visit.entries).map Prod.snd := by
  rw [List.map_flatMap]
  exact h.appends (f := fun s => s.listing.toList) fun _ hv hr =>
    (Visit.output_and_listing ((h.pass_of_mem hv).trans hp) hr).2

end Walked

/-! ### Sessions -/

namespace Session

variable {z z' : Session} {source file : String} {base : Option Int} {log : List Report} {code : List UInt8}

/-- The state in which the first pass over a source starts. -/
def start (z : Session) (base : Option Int) (symbols : Symbols) : State :=
  State.start .first { base := base.getD z.base, symbols }

/-- The lines of the first pass over a source, with the states before and after them. -/
def firstPass (z : Session) (source : String) (base : Option Int) (file : String) : List Visit :=
  match seed z.defines, tokenize source file with
  | .ok symbols, .ok tokens => visits (z.start base symbols) (Line.split tokens)
  | _, _ => []

/-- The lines of the second pass. -/
def secondPass (z : Session) (source : String) (base : Option Int) (file : String) : List Visit :=
  match seed z.defines, tokenize source file with
  | .ok symbols, .ok tokens => visits (walk (z.start base symbols) (Line.split tokens)).1.turn (Line.split tokens)
  | _, _ => []

/-- The state and the failure that a session ends with if its constants can be defined and the source is made of
lexemes. -/
theorem assemble_of_run {symbols : Symbols} {tokens : List Token} (hseed : seed z.defines = .ok symbols)
    (ht : tokenize source file = .ok tokens) :
    (z.assemble source base file).1.last =
        some ⟨(Mc6809.run { base := base.getD z.base, symbols } (Line.split tokens)).state, quotedLines source⟩ ∧
      (z.assemble source base file).2.2 =
        match (Mc6809.run { base := base.getD z.base, symbols } (Line.split tokens)).failure with
        | some e => .error (trouble (quotedLines source) e)
        | none =>
          .ok (Mc6809.run { base := base.getD z.base, symbols } (Line.split tokens)).state.output.toList := by
  simp only [assemble, hseed, ht]
  cases (Mc6809.run { base := base.getD z.base, symbols } (Line.split tokens)).failure <;> exact ⟨rfl, rfl⟩

/-- What is left of a run without a failure. -/
structure Assembled (z : Session) (source : String) (base : Option Int) (file : String) (r : State)
    (tokens : List Token) (symbols : Symbols) (s₁ s₂ : State) : Prop where
  seeded : seed z.defines = .ok symbols
  tokenized : tokenize source file = .ok tokens
  first : Walked (z.start base symbols) (Line.split tokens) (z.firstPass source base file) s₁
  second : Walked s₁.turn (Line.split tokens) (z.secondPass source base file) s₂
  symbols_eq : r.symbols = s₂.symbols
  widths_eq : r.widths = s₂.widths
  listing_eq : r.listing = s₂.listing
  output_eq : r.output = s₂.output

/-- A source that is assembled has gone through both passes. -/
theorem assemble_eq_ok (h : z.assemble source base file = (z', log, .ok code)) :
    ∃ r tokens symbols s₁ s₂, z'.last = some r ∧ code = r.state.output.toList ∧
      Assembled z source base file r.state tokens symbols s₁ s₂ := by
  unfold assemble at h
  dsimp only at h
  split at h
  · cases h
  · next symbols hseed =>
    split at h
    · cases h
    · next tokens htokens =>
      have hfirst : z.firstPass source base file = visits (z.start base symbols) (Line.split tokens) := by
        simp only [firstPass, hseed, htokens]
      have hsecond : z.secondPass source base file =
          visits (walk (z.start base symbols) (Line.split tokens)).1.turn (Line.split tokens) := by
        simp only [secondPass, hseed, htokens]
      unfold Mc6809.run at h
      cases hw₁ : walk (z.start base symbols) (Line.split tokens) with
      | mk s₁ e₁ =>
        have hw₁' := hw₁
        unfold start at hw₁'
        rw [hw₁'] at h
        cases e₁ with
        | some e => cases h
        | none =>
          cases hw₂ : walk s₁.turn (Line.split tokens) with
          | mk s₂ e₂ =>
            simp only [hw₂] at h
            cases e₂ with
            | some e => cases h
            | none =>
              cases h
              rw [hw₁] at hsecond
              refine ⟨_, tokens, symbols, s₁, s₂, rfl, rfl, hseed, htokens, ?_, ?_, rfl, rfl, rfl, rfl⟩
              · rw [hfirst]
                exact walk_eq_none_iff.1 hw₁
              · rw [hsecond]
                exact walk_eq_none_iff.1 hw₂

namespace Assembled

variable {r s₁ s₂ : State} {tokens : List Token} {symbols : Symbols} {v : Visit}

/-- The second pass has the final symbols on every line. -/
theorem symbols_of_mem (h : Assembled z source base file r tokens symbols s₁ s₂)
    (hv : v ∈ z.secondPass source base file) : v.before.symbols = r.symbols := by
  have hapart := Line.split_apart (tokenize_index h.tokenized)
  obtain ⟨k, hk⟩ := List.getElem?_of_mem hv
  obtain ⟨v₁, -, -, -, hR, -⟩ := h.first.retraces rfl rfl hapart (k := k) (h.second.visits_eq ▸ hk)
  rw [hR.symbols, h.symbols_eq, (h.first.keeps rfl rfl hapart h.second).1]

/-- Unless constants take the names of labels, each line of the second pass is where it was in the first one, and
the symbols known then keep their values. -/
theorem retraced (h : Assembled z source base file r tokens symbols s₁ s₂)
    (hn : ∀ v ∈ z.firstPass source base file, v.Unshadowed) (hv : v ∈ z.secondPass source base file) :
    ∃ v₁ ∈ z.firstPass source base file, v.line = v₁.line ∧ v₁.Settled s₁ ∧
      State.Retraces s₁ v₁.before v.before ∧ v₁.before.Lockstep v.before ∧
      v₁.after.symbols.KeptIn s₁.symbols := by
  have hapart := Line.split_apart (tokenize_index h.tokenized)
  have hstart : (z.start base symbols).Lockstep s₁.turn := ⟨h.first.base, rfl, rfl⟩
  obtain ⟨k, hk⟩ := List.getElem?_of_mem hv
  have hk' : (visits s₁.turn (Line.split tokens))[k]? = some v := h.second.visits_eq ▸ hk
  obtain ⟨v₁, hv₁, hl, hset, hR, -⟩ := h.first.retraces rfl rfl hapart hk'
  obtain ⟨w₁, hw₁, -, hlock, -⟩ := (h.first.lockstep rfl hstart hapart hn).1 k v hk'
  rw [hv₁] at hw₁
  cases hw₁
  have hmem := List.mem_of_getElem? hv₁
  exact ⟨v₁, hmem, hl, hset, hR, hlock, h.first.keptIn rfl hapart hn v₁ hmem⟩

end Assembled

theorem assemble_eq (h : (z.assemble source base file).2.2.toOption = some code) :
    z.assemble source base file =
      ((z.assemble source base file).1, (z.assemble source base file).2.1, .ok code) := by
  rcases hr : z.assemble source base file with ⟨z', log, result⟩
  rw [hr] at h
  cases result with
  | error e => cases h
  | ok bytes =>
    cases h
    rfl

/-- Only constants are defined beforehand. -/
theorem labels_of_seed {defines : List (String × Int)} {symbols : Symbols} (h : seed defines = .ok symbols) :
    symbols.labels = [] := by
  have hempty : ({} : Symbols).labels = [] := rfl
  unfold seed at h
  revert hempty h
  generalize ({} : Symbols) = first
  induction defines generalizing first with
  | nil =>
    intro h hf
    cases h
    exact hf
  | cons p ps ih =>
    intro h hf
    rw [List.foldlM_cons] at h
    cases hd : first.defineConstant ⟨Text.lower p.1, p.2, none⟩ with
    | error e =>
      rw [hd] at h
      cases h
    | ok next =>
      rw [hd] at h
      exact ih next h ((Symbols.labels_of_defineConstant hd).trans hf)

end Session

end Mc6809
