import Mc6809.Proofs.SignedSums
import Mc6809.Proofs.Widths

/-!
# Programs without forward references

The first pass records a width for each operand that can be stored in several ones, and the second pass goes by
what is on record.  If all symbols of an instruction are known when the first pass gets to it, the width on record is
the one that the instruction asks for in the second pass as well (`Visit.Settled.ownWidths`).  A second pass that
has no widths on record then does the same thing (`Walked.recast`), so `recorded_widths_are_redundant`.
-/

namespace Mc6809

/-! ### Widths as they are asked for -/

namespace Visit

/-- The names in the operands of a line have values when the line is done.  An instruction defines none of them
itself. -/
def Backward (v : Visit) : Prop :=
  ∀ a ∈ v.line.actions, a.isInstruct = true → ∀ name ∈ a.names, (v.after.symbols.resolve name).isSome = true

instance (v : Visit) : Decidable v.Backward :=
  inferInstanceAs (Decidable (∀ a ∈ v.line.actions, a.isInstruct = true →
    ∀ name ∈ a.names, (v.after.symbols.resolve name).isSome = true))

/-- The widths that are recorded for the instructions of a line are those that they ask for. -/
def OwnWidths (v : Visit) : Prop :=
  ∀ m mnemonic i next, .instruct m mnemonic i next ∈ v.line.actions →
    ∀ own, i.ownWidth? m v.before = some own → v.before.widths.lookup (mnemonic.index : Int) = some own

end Visit

private theorem Expr.settled_of_names {e : Expr} {symbols : Symbols}
    (h : ∀ name ∈ e.names, (symbols.resolve name).isSome = true) (p : Int) :
    (e.value symbols p).settled = true :=
  (e.settled_iff_known symbols p).2 (known_of_names h)

private theorem Instruction.names_of_sized {i : Instruction} {e : Expr} (h : i.sized? = some e) :
    i.names = e.names := by
  have hexpr : i.expr? = some e ∧ i.names = i.expr?.toList.flatMap Expr.names := by
    cases i with
    | address => exact ⟨h, rfl⟩
    | indexed f operand indirect =>
      cases operand with
      | offset => exact ⟨h, rfl⟩
      | counter => exact ⟨h, rfl⟩
      | target => exact ⟨h, rfl⟩
      | _ => cases h
    | _ => cases h
  rw [hexpr.2, hexpr.1]
  simp

/-- Where the symbols of an instruction were known already in the first pass, it still asks for the width on
record. -/
theorem Visit.Settled.ownWidths {t : State} {v₁ v₂ : Visit} (hv : v₁.Settled t)
    (hR : State.Retraces t v₁.before v₂.before) (hl : v₂.line = v₁.line)
    (hr : v₂.line.run v₂.before = .ok () v₂.after) (hk : v₁.after.symbols.KeptIn t.symbols)
    (hs : v₁.before.Lockstep v₂.before) (hb : v₁.Backward) : v₂.OwnWidths := by
  intro m mnemonic i next hi own ho
  obtain ⟨u₁, ws₁, ws₂, mi₁, mi₂, h⟩ := hv.instructs hR hl hr hi
  rcases hsized : i.sized? with _ | e
  · rw [Instruction.ownWidth?_of_none hsized] at ho
    cases ho
  · have hnames : ∀ name ∈ e.names, (u₁.symbols.resolve name).isSome = true := by
      intro name hname
      rw [h.symbols]
      refine hb _ (hl ▸ hi) rfl name ?_
      show name ∈ i.names
      rwa [Instruction.names_of_sized hsized]
    have hkept : u₁.symbols.KeptIn v₂.before.symbols := by
      rw [h.symbols, hR.symbols]
      exact hk
    have hvalue : v₂.before.value e = u₁.value e :=
      Expr.value_of_keptIn hkept (Expr.settled_of_names hnames u₁.placeholder) _
    have hown : i.ownWidth? m v₂.before = i.ownWidth? m u₁ :=
      Instruction.ownWidth?_congr hsized hvalue (hs.pc.trans h.pc.symm) (hs.dp.trans h.dp.symm)
    rw [hown] at ho
    exact h.recorded.trans (h.first.lookup_own h.pass ho)

/-! ### A second pass with other widths on record -/

/-- The state with other widths on record, and with other notes. -/
def State.recast (s : State) (ws : List (Int × Int)) (ns : List Note) : State :=
  { s with widths := ws, notes := ns }

variable {s t : State} {ws : List (Int × Int)}

private theorem State.Bounded.recast {required : Bool} {b : Bounds} {e : Expr} {n : Int} (h : s.Bounded required b e n)
    (ws : List (Int × Int)) (ns : List Note) : (s.recast ws ns).Bounded required b e n :=
  ⟨h.total, h.admits, h.contains⟩

/-- An instruction that asks for the width in use is encoded in the same way if none is on record. -/
private theorem Instruction.Encodes.recast {m : Mnemonic} {key : Int} {i : Instruction} {ws₀ : List (Int × Int)}
    {mi : Machine.Instruction} (he : i.Encodes m key s ws₀ mi) (hp : s.pass = .second)
    (hown : ∀ own, i.ownWidth? m s = some own → s.width key own = own) (hws : ws.lookup key = none)
    (ns : List Note) : ∃ ws', i.Encodes m key (s.recast ws ns) ws' mi := by
  have hwidth : ∀ own, i.ownWidth? m s = some own → (s.recast ws ns).width key own = s.width key own := by
    intro own ho
    rw [hown own ho]
    exact State.width_of_unrecorded hws own
  cases he with
  | inherent f => exact ⟨_, .inherent f⟩
  | branch hd =>
    cases hd with
    | known hv hr => exact ⟨_, .branch (.known hv hr)⟩
    | unknown _ hfirst => exact absurd hp hfirst
  | transfer f source target => exact ⟨_, .transfer f source target⟩
  | stack f rs => exact ⟨_, .stack f rs⟩
  | immediate hb => exact ⟨_, .immediate (hb.recast ws ns)⟩
  | direct ha hb => exact ⟨_, .direct ha hb⟩
  | extended hb => exact ⟨_, .extended (hb.recast ws ns)⟩
  | pointer hb => exact ⟨_, .pointer (hb.recast ws ns)⟩
  | noOffset f r indirect => exact ⟨_, .noOffset f r indirect⟩
  | accumulator f acc r indirect => exact ⟨_, .accumulator f acc r indirect⟩
  | stepping f step r indirect => exact ⟨_, .stepping f step r indirect⟩
  -- From here on the width is chosen: by the record in one state and by the instruction in the other.
  | shortAddress ha hw hf => exact ⟨_, .shortAddress ha ((hwidth _ rfl).trans hw) hf⟩
  | longAddress hb hw hf =>
    refine ⟨_, .longAddress (hb.recast ws ns) (fun h => hw ?_) hf⟩
    exact (hwidth _ rfl).symm.trans h
  | offset hb =>
    rw [← hwidth _ rfl]
    exact ⟨_, .offset (hb.recast ws ns)⟩
  | counter hb =>
    rw [← hwidth _ rfl]
    exact ⟨_, .counter (hb.recast ws ns)⟩
  | target ha hw => exact ⟨_, .target ha (hw.trans (hwidth _ rfl).symm)⟩

/-- No other action looks at the widths. -/
private theorem Action.Does.recast {a : Action} (h : a.Does s t) (hi : a.isInstruct = false) (ws : List (Int × Int))
    (ns : List Note) : ∃ ns', a.Does (s.recast ws ns) (t.recast ws ns') := by
  cases h with
  | define hs hn => exact ⟨_, .define hs hn⟩
  | origin hb => exact ⟨_, .origin (hb.recast ws ns)⟩
  | page hb => exact ⟨_, .page (hb.recast ws ns)⟩
  | reserve hb => exact ⟨ns, .reserve (hb.recast ws ns)⟩
  | reserveOne hb hmax => exact ⟨ns, .reserveOne (hb.recast ws ns) hmax⟩
  | reserveMany hb hk hmax => exact ⟨ns, .reserveMany (hb.recast ws ns) (hk.recast ws ns) hmax⟩
  | fill hb hk => exact ⟨ns, .fill (hb.recast ws ns) (hk.recast ws ns)⟩
  | check hb => exact ⟨ns, .check (hb.recast ws ns)⟩
  | text ht => exact ⟨ns, .text ht⟩
  | value hb => exact ⟨ns, .value (hb.recast ws ns)⟩
  | terminator d place => exact ⟨_, .terminator d place⟩
  | instruct => cases hi
  | stop => exact ⟨ns, .stop⟩

private theorem Action.DoAll.recast {as : List Action} (h : DoAll s as t) (hi : ∀ a ∈ as, a.isInstruct = false)
    (ws : List (Int × Int)) (ns : List Note) : ∃ ns', DoAll (s.recast ws ns) as (t.recast ws ns') := by
  induction h generalizing ns with
  | nil s => exact ⟨ns, .nil _⟩
  | @cons s t u a as ha _ ih =>
    obtain ⟨ns', ha'⟩ := ha.recast (hi a (List.mem_cons_self ..)) ws ns
    obtain ⟨ns'', has'⟩ := ih (fun b hb => hi b (List.mem_cons_of_mem _ hb)) ns'
    exact ⟨ns'', .cons ha' has'⟩

private theorem State.Labels.recast {label : Option (String × Token)} (h : s.Labels label t) (hp : s.pass = .second)
    (ws : List (Int × Int)) (ns : List Note) : (s.recast ws ns).Labels label (s.recast ws ns) := by
  cases h with
  | absent => exact .absent
  | bound hp' =>
    rw [hp] at hp'
    cases hp'
  | found _ hv => exact .found hp hv

/-- A line whose instruction asks for the width on record does the same without it. -/
private theorem Visit.OwnWidths.recast {v : Visit} (hv : v.OwnWidths) (hp : v.before.pass = .second)
    (hr : v.line.run v.before = .ok () v.after) (hws : ∀ u ∈ v.line.body, ws.lookup (u.index : Int) = none)
    (ns : List Note) :
    ∃ ws' ns', v.line.run (v.before.recast ws ns) = .ok () (v.after.recast ws' ns') := by
  rcases Line.run_eq_ok.1 hr with ⟨hl, he⟩ | ⟨st, hl, hd⟩
  · exact ⟨ws, ns, Line.run_eq_ok.2 (.inl ⟨hl, by rw [he]⟩)⟩
  · suffices ∃ ws' ns', st.Does (v.before.recast ws ns) (v.after.recast ws' ns') by
      obtain ⟨ws', ns', hd'⟩ := this
      exact ⟨ws', ns', Line.run_eq_ok.2 (.inr ⟨st, hl, hd'⟩)⟩
    have hpass : (v.before.recast ws ns).pass = .second := hp
    have hlabels := (hd.of_second hp).1.recast hp ws ns
    generalize hafter : v.after = after at hd
    cases hd with
    | first hp' =>
      rw [hp] at hp'
      cases hp'
    | skipped _ hc hlabel =>
      cases hlabel.eq_of_second hp
      exact ⟨ws, ns, .skipped hpass hc hlabels⟩
    | @second t u _ hc hlabel ha hf =>
      cases hlabel.eq_of_second hp
      suffices ∃ ws' ns', Action.DoAll (v.before.recast ws ns) st.actions (u.recast ws' ns') by
        obtain ⟨ws', ns', ha'⟩ := this
        exact ⟨ws', ns', .second hpass hc hlabels ha' hf⟩
      rcases (Line.group_of_statement? hl).instruct_cases with hi | ⟨m, mnemonic, i, next, hone⟩
      · exact ⟨ws, ha.recast hi ws ns⟩
      · have hactions : .instruct m mnemonic i next ∈ st.actions := by
          rw [hone]
          exact List.mem_singleton_self _
        have hmem : mnemonic ∈ v.line.body := (Line.instruct_mem hl hactions).2.2.1
        rw [← Line.actions_of_statement? hl] at hactions
        have hown : ∀ own, i.ownWidth? m v.before = some own → v.before.width mnemonic.index own = own :=
          fun own ho => State.width_of_recorded hp (hv m mnemonic i next hactions own ho)
        rw [hone] at ha ⊢
        cases ha.singleton with
        | instruct he =>
          obtain ⟨ws', he'⟩ := he.recast hp hown (hws mnemonic hmem) ns
          exact ⟨ws', ns, .cons (.instruct he') (.nil _)⟩

/-- Lines have no tokens in common, so what is recorded on the way is of no use to the lines that follow. -/
theorem Walked.recast {ls : List Line} {vs : List Visit} (h : Walked s ls vs t) (hp : s.pass = .second)
    (hapart : ls.Pairwise Line.Before) (hv : ∀ v ∈ vs, v.OwnWidths)
    (hws : ∀ l ∈ ls, ∀ u ∈ l.body, ws.lookup (u.index : Int) = none) (ns : List Note) :
    ∃ ws' ns', walk (s.recast ws ns) ls = (t.recast ws' ns', none) := by
  induction h generalizing ws ns with
  | nil s => exact ⟨ws, ns, rfl⟩
  | @ended s he ls =>
    have he' : (s.recast ws ns).ended = true := he
    exact ⟨ws, ns, walk_of_ended he' ls⟩
  | @cons s t u l ls vs he hr hw ih =>
    obtain ⟨hfirst, hrest⟩ := List.pairwise_cons.1 hapart
    obtain ⟨ws', ns', hr'⟩ := (hv _ (List.mem_cons_self ..)).recast hp hr (hws l (List.mem_cons_self ..)) ns
    have hws' : ∀ l' ∈ ls, ∀ u ∈ l'.body, ws'.lookup (u.index : Int) = none := by
      intro l' hl' u hu
      have hapart' : ∀ mnemonic ∈ l.body, (u.index : Int) ≠ mnemonic.index := by
        intro mnemonic hm
        have hlt := hfirst l' hl' mnemonic hm u hu
        omega
      have hlookup : ws'.lookup (u.index : Int) = ws.lookup (u.index : Int) := Line.lookup_widths_of_run hr' hapart'
      rw [hlookup]
      exact hws l' (List.mem_cons_of_mem _ hl') u hu
    obtain ⟨ws'', ns'', hw'⟩ := ih ((Line.pass_of_run hr).trans hp) hrest
      (fun v hv' => hv v (List.mem_cons_of_mem _ hv')) hws' ns'
    have he' : (s.recast ws ns).ended = false := he
    exact ⟨ws'', ns'', (walk_cons_of_ok he' hr' ls).trans hw'⟩

/-! ### Whole programs -/

private theorem Line.placeholder_of_run {l : Line} (h : l.run s = .ok () t) (hp : s.pass = .second) :
    t.placeholder = s.placeholder := by
  rcases Line.run_eq_ok.1 h with ⟨-, rfl⟩ | ⟨st, -, hd⟩
  · rfl
  · obtain ⟨-, u, rfl, ⟨-, rfl⟩ | ⟨-, ha⟩⟩ := hd.of_second hp
    · rfl
    · exact ha.frame.placeholder

private theorem Walked.placeholder {ls : List Line} {vs : List Visit} (h : Walked s ls vs t) (hp : s.pass = .second) :
    t.placeholder = s.placeholder :=
  (h.across (R := fun s t => t.placeholder = s.placeholder) (fun _ => rfl) (fun _ _ _ h h' => h'.trans h)
    fun _ hv hr => Line.placeholder_of_run hr ((h.pass_of_mem hv).trans hp)).1

namespace Session

variable {z z' : Session} {source file : String} {base : Option Int} {log : List Report} {code : List UInt8}
  {r : Results} {tokens : List Token} {symbols : Symbols} {s₁ s₂ : State}

/-- The state that is left of a run is the one at the end of the second pass, with two more notes. -/
private theorem Assembled.state_eq (hrun : Assembled z source base file r.state tokens symbols s₁ s₂)
    (h : z.assemble source base file = (z', log, .ok code)) (hlast : z'.last = some r) :
    r.state = (s₂.note s₂.summary).note (.generated s₂.output.size) := by
  have hresult : (z.assemble source base file).1.last = some _ :=
    (assemble_of_run hrun.seeded hrun.tokenized).1
  rw [h] at hresult
  cases hlast.symm.trans hresult
  have hw₁ : walk (State.start .first { base := base.getD z.base, symbols }) (Line.split tokens) = (s₁, none) :=
    walk_eq_none_iff.2 (hrun.first.visits_eq ▸ hrun.first)
  have hw₂ : walk s₁.turn (Line.split tokens) = (s₂, none) :=
    walk_eq_none_iff.2 (hrun.second.visits_eq ▸ hrun.second)
  simp only [Mc6809.run, hw₁, hw₂]

/-- A second pass that starts over without widths on record differs in these, and in its notes, from the one that
was run. -/
private theorem Assembled.restart_eq (hrun : Assembled z source base file r.state tokens symbols s₁ s₂)
    (h : z.assemble source base file = (z', log, .ok code)) (hlast : z'.last = some r) :
    State.start .second { r.state with widths := [] } = s₁.turn.recast [] r.state.notes := by
  have hapart := Line.split_apart (tokenize_index hrun.tokenized)
  have hsymbols : s₂.symbols = s₁.symbols := (hrun.first.keeps rfl rfl hapart hrun.second).1
  have hbase : s₂.base = s₁.base := hrun.second.base
  have hplaceholder : s₂.placeholder = s₁.placeholder := hrun.second.placeholder rfl
  rw [hrun.state_eq h hlast]
  simp [State.start, State.turn, State.recast, State.note, hsymbols, hbase, hplaceholder]

end Session

/-- If a source is assembled, no constant takes the name of a label, and all names in the operands of instructions
are known when the first pass gets to them, then every instruction of the second pass asks for the width that is
on record for it, and the second pass comes to the same code and listing with no widths on record. -/
theorem recorded_widths_are_redundant {z z' : Session} {source file : String} {base : Option Int} {log : List Report}
    {code : List UInt8} (h : z.assemble source base file = (z', log, .ok code))
    (hn : ∀ v ∈ z.firstPass source base file, v.Unshadowed)
    (hb : ∀ v ∈ z.firstPass source base file, v.Backward) :
    ∃ r tokens t, z'.last = some r ∧ tokenize source file = .ok tokens ∧
      (∀ v ∈ z.secondPass source base file, v.before.symbols = r.state.symbols ∧ v.OwnWidths) ∧
      walk (State.start .second { r.state with widths := [] }) (Line.split tokens) = (t, none) ∧
      t.output.toList = code ∧ t.listing = r.state.listing := by
  obtain ⟨r, tokens, symbols, s₁, s₂, hlast, hcode, hrun⟩ := Session.assemble_eq_ok h
  have hapart := Line.split_apart (tokenize_index hrun.tokenized)
  have hown : ∀ v ∈ z.secondPass source base file, v.before.symbols = r.state.symbols ∧ v.OwnWidths := by
    intro v hv
    obtain ⟨v₁, hmem, hl, hset, hR, hlock, hkept⟩ := hrun.retraced hn hv
    have hr := (hrun.second.run_of_mem hv).2
    exact ⟨hrun.symbols_of_mem hv, hset.ownWidths hR hl hr hkept hlock (hb v₁ hmem)⟩
  have hnone : ∀ l ∈ Line.split tokens, ∀ u ∈ l.body, ([] : List (Int × Int)).lookup (u.index : Int) = none :=
    fun _ _ _ _ => rfl
  obtain ⟨ws, ns, hwalk⟩ := hrun.second.recast rfl hapart (fun v hv => (hown v hv).2) hnone r.state.notes
  rw [← hrun.restart_eq h hlast] at hwalk
  refine ⟨r, tokens, s₂.recast ws ns, hlast, hrun.tokenized, hown, hwalk, ?_, hrun.listing_eq.symm⟩
  rw [hcode, hrun.output_eq]
  rfl

/-- Operands of all kinds that have several widths, none of which refers forward. -/
private def backwardOnly : String :=
  "n = 3\np: lda n,x\n ldb p\n leax p,pcr\n ldy [300,pc]\n bra p\n"

theorem recorded_widths_are_redundant_backward :
    ∃ z' log r tokens t, ({ base := 0 } : Session).assemble backwardOnly none "main.asm" =
        (z', log, .ok [0xA6, 0x03, 0xD6, 0x00, 0x30, 0x8C, 0xF9, 0x10, 0xAE, 0x9D, 0x01, 0x2C, 0x20, 0xF2]) ∧
      (∀ v ∈ ({ base := 0 } : Session).firstPass backwardOnly none "main.asm", v.Unshadowed) ∧
      (∀ v ∈ ({ base := 0 } : Session).firstPass backwardOnly none "main.asm", v.Backward) ∧
      z'.last = some r ∧ tokenize backwardOnly "main.asm" = .ok tokens ∧
      walk (State.start .second { r.state with widths := [] }) (Line.split tokens) = (t, none) ∧
      t.output.toList =
        [0xA6, 0x03, 0xD6, 0x00, 0x30, 0x8C, 0xF9, 0x10, 0xAE, 0x9D, 0x01, 0x2C, 0x20, 0xF2] ∧
      t.listing = r.state.listing := by
  have hcode : (({ base := 0 } : Session).assemble backwardOnly none "main.asm").2.2.toOption =
      some [0xA6, 0x03, 0xD6, 0x00, 0x30, 0x8C, 0xF9, 0x10, 0xAE, 0x9D, 0x01, 0x2C, 0x20, 0xF2] := by
    decide +kernel
  have hfirst : ∀ v ∈ ({ base := 0 } : Session).firstPass backwardOnly none "main.asm",
      v.Unshadowed ∧ v.Backward := by decide +kernel
  have hn := fun v hv => (hfirst v hv).1
  have hb := fun v hv => (hfirst v hv).2
  obtain ⟨r, tokens, t, hlast, htokens, -, hwalk, houtput, hlisting⟩ :=
    recorded_widths_are_redundant (Session.assemble_eq hcode) hn hb
  exact ⟨_, _, r, tokens, t, Session.assemble_eq hcode, hn, hb, hlast, htokens, hwalk, houtput, hlisting⟩

end Mc6809
