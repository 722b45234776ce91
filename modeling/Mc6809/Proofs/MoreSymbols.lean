import Mc6809.Proofs.Passes

/-!
# The second pass with more symbols

A second pass that gets over some lines makes use of defined symbols only.  So it emits the same bytes when more
symbols are defined, as long as those that it has keep their values and the widths of its instructions are the same
(`State.Extends`).  This is shown for instructions, actions, statements and lines, and by induction for walks
(`Walked.extends`).
-/

namespace Mc6809

/-- The second of two states of the second pass is at the same place as the first one, with the same bytes.  It may
have more symbols, and other widths for tokens that are not among `ts`. -/
structure State.Extends (ts : List Token) (s s' : State) : Prop where
  second : s.pass = .second
  second' : s'.pass = .second
  pc : s'.pc = s.pc
  dp : s'.dp = s.dp
  output : s'.output = s.output
  ended : s'.ended = s.ended
  symbols : s.symbols.KeptIn s'.symbols
  labels : ∀ name v, s.symbols.labels.value? name = some v → s'.symbols.labels.value? name = some v
  widths : s.WidthsFrom s' ts

variable {ts : List Token} {s s' t : State}

namespace State.Extends

private theorem emit (h : s.Extends ts s') (bytes : List UInt8) : (s.emit bytes).Extends ts (s'.emit bytes) := by
  refine ⟨h.second, h.second', ?_, h.dp, ?_, h.ended, h.symbols, h.labels, h.widths⟩
  · simp [State.emit, h.pc]
  · simp [State.emit, h.second, h.second', h.output]

private theorem value (h : s.Extends ts s') {required : Bool} {e : Expr} (ha : s.Admits required e) :
    s'.value e = s.value e :=
  Expr.value_of_keptIn h.symbols (ha (.inr h.second)) _

private theorem admits (h : s.Extends ts s') {required : Bool} {e : Expr} (ha : s.Admits required e) :
    s'.Admits required e := by
  intro _
  rw [h.value ha]
  exact ha (.inr h.second)

private theorem bounded (h : s.Extends ts s') {required : Bool} {b : Bounds} {e : Expr} {n : Int}
    (hb : s.Bounded required b e n) : s'.Bounded required b e n := by
  have hv := h.value hb.admits
  exact ⟨by rw [hv, hb.total], h.admits hb.admits, by rw [hv]; exact hb.contains⟩

private theorem distance (h : s.Extends ts s') {f : Form} {name : String} {d : Int} (hd : s.Distance f name d) :
    s'.Distance f name d := by
  cases hd with
  | known hv hr =>
    rw [← h.pc] at hr ⊢
    exact .known (h.symbols _ _ hv) hr
  | unknown _ hp => exact absurd h.second hp

private theorem onPage (h : s.Extends ts s') (n : Int) : s'.onPage n = s.onPage n := by
  rw [State.onPage, h.dp, State.onPage]

private theorem addressWidth (h : s.Extends ts s') {required : Bool} {e : Expr} (ha : s.Admits required e)
    (m : Mnemonic) :
    Instruction.addressWidth m s' e = Instruction.addressWidth m s e := by
  rw [Instruction.addressWidth, State.isShort, h.value ha, h.onPage, h.dp]
  rfl

section Widths

variable {mnemonic : Token} {own : Int}

/-- Both states choose the same width. -/
private theorem width (h : s.Extends ts s') (hm : mnemonic ∈ ts) :
    s'.width mnemonic.index own = s.width mnemonic.index own := by
  unfold State.width State.choose
  rw [h.second, h.second', h.widths mnemonic hm]
  cases s.widths.lookup (mnemonic.index : Int) <;> rfl

private theorem widthsWith (h : s.Extends ts s') (hm : mnemonic ∈ ts) :
    ∀ t ∈ ts, (s'.widthsWith mnemonic.index own).lookup (t.index : Int) =
      (s.widthsWith mnemonic.index own).lookup (t.index : Int) := by
  intro t ht
  unfold State.widthsWith State.choose
  rw [h.second, h.second', h.widths mnemonic hm]
  cases s.widths.lookup (mnemonic.index : Int) with
  | some w => exact h.widths t ht
  | none =>
    by_cases hk : (t.index : Int) = mnemonic.index
    · simp only [hk, lookup_assign_self]
    · simp only [lookup_assign_of_ne hk]
      exact h.widths t ht

end Widths

end State.Extends

/-! ### Instructions -/

/-- An instruction is encoded in the same way. -/
private theorem Instruction.Encodes.extends {m : Mnemonic} {mnemonic : Token} {i : Instruction} {ws : List (Int × Int)}
    {mi : Machine.Instruction} (he : i.Encodes m mnemonic.index s ws mi) (h : s.Extends ts s') (hm : mnemonic ∈ ts) :
    ∃ ws', i.Encodes m mnemonic.index s' ws' mi ∧
      ∀ t ∈ ts, ws'.lookup (t.index : Int) = ws.lookup (t.index : Int) := by
  cases he with
  | inherent f => exact ⟨_, .inherent f, h.widths⟩
  | branch hd => exact ⟨_, .branch (h.distance hd), h.widths⟩
  | transfer f source target => exact ⟨_, .transfer f source target, h.widths⟩
  | stack f rs => exact ⟨_, .stack f rs, h.widths⟩
  | immediate hb => exact ⟨_, .immediate (h.bounded hb), h.widths⟩
  | direct ha hb =>
    simp only [← h.value ha, ← h.onPage] at hb ⊢
    exact ⟨_, .direct (h.admits ha) hb, h.widths⟩
  | extended hb => exact ⟨_, .extended (h.bounded hb), h.widths⟩
  | pointer hb => exact ⟨_, .pointer (h.bounded hb), h.widths⟩
  | noOffset f r indirect => exact ⟨_, .noOffset f r indirect, h.widths⟩
  | accumulator f acc r indirect => exact ⟨_, .accumulator f acc r indirect, h.widths⟩
  | stepping f step r indirect => exact ⟨_, .stepping f step r indirect, h.widths⟩
  -- From here on the width is chosen, and both states make the same choice.
  | shortAddress ha hw hf =>
    refine ⟨_, ?_, h.widthsWith hm⟩
    rw [← h.width hm] at hw
    rw [← h.addressWidth ha] at hw ⊢
    rw [← h.value ha]
    exact .shortAddress (h.admits ha) hw hf
  | longAddress hb hw hf =>
    refine ⟨_, ?_, h.widthsWith hm⟩
    rw [← h.width hm] at hw
    rw [← h.addressWidth hb.admits] at hw ⊢
    exact .longAddress (h.bounded hb) hw hf
  | offset hb =>
    refine ⟨_, ?_, h.widthsWith hm⟩
    rw [← h.width hm, ← h.value hb.admits]
    exact .offset (h.bounded hb)
  | counter hb =>
    refine ⟨_, ?_, h.widthsWith hm⟩
    rw [← h.width hm, ← h.value hb.admits]
    exact .counter (h.bounded hb)
  | target ha hw =>
    refine ⟨_, ?_, h.widthsWith hm⟩
    rw [← h.width hm] at hw
    rw [← h.value ha, ← h.pc] at hw ⊢
    exact .target (h.admits ha) hw

/-! ### Actions and statements -/

/-- An action that defines nothing has the same effect. -/
private theorem Action.Does.extends {a : Action} (hd : a.Does s t) (h : s.Extends ts s') (hn : a.defined? = none)
    (hm : ∀ mnemonic ∈ a.mnemonics, mnemonic ∈ ts) : ∃ t', a.Does s' t' ∧ t.Extends ts t' := by
  cases hd with
  | define => cases hn
  | origin hb =>
    exact ⟨_, .origin (h.bounded hb), h.second, h.second', rfl, h.dp, h.output, h.ended, h.symbols, h.labels, h.widths⟩
  | page hb =>
    exact ⟨_, .page (h.bounded hb), h.second, h.second', h.pc, rfl, h.output, h.ended, h.symbols, h.labels, h.widths⟩
  | reserve hb => exact ⟨_, .reserve (h.bounded hb), h.emit _⟩
  | reserveOne hb hmax => exact ⟨_, .reserveOne (h.bounded hb) hmax, h.emit _⟩
  | reserveMany hb hk hmax => exact ⟨_, .reserveMany (h.bounded hb) (h.bounded hk) hmax, h.emit _⟩
  | fill hb hk => exact ⟨_, .fill (h.bounded hb) (h.bounded hk), h.emit _⟩
  | check hb => exact ⟨_, .check (h.bounded hb), h⟩
  | text ht => exact ⟨_, .text ht, h.emit _⟩
  | value hb => exact ⟨_, .value (h.bounded hb), h.emit _⟩
  | terminator d place =>
    exact ⟨_, .terminator d place, h.second, h.second', h.pc, h.dp, h.output, h.ended, h.symbols, h.labels, h.widths⟩
  | @instruct m mnemonic i next ws mi he =>
    obtain ⟨ws', he', hws⟩ := he.extends h (hm mnemonic (List.mem_singleton_self _))
    have hnext : State.Extends ts { s with widths := ws } { s' with widths := ws' } :=
      ⟨h.second, h.second', h.pc, h.dp, h.output, h.ended, h.symbols, h.labels, hws⟩
    exact ⟨_, .instruct he', hnext.emit _⟩
  | stop => exact ⟨_, .stop, h.second, h.second', h.pc, h.dp, h.output, rfl, h.symbols, h.labels, h.widths⟩

private theorem Action.DoAll.extends {as : List Action} (hd : DoAll s as t) (h : s.Extends ts s')
    (hn : ∀ a ∈ as, a.defined? = none) (hm : ∀ mnemonic ∈ as.flatMap mnemonics, mnemonic ∈ ts) :
    ∃ t', DoAll s' as t' ∧ t.Extends ts t' := by
  induction hd generalizing s' with
  | nil s => exact ⟨s', .nil s', h⟩
  | @cons s t u a as ha _ ih =>
    rw [List.flatMap_cons] at hm
    obtain ⟨t', ha', h'⟩ := ha.extends h (hn a (List.mem_cons_self ..)) fun m hm' => hm m (List.mem_append_left _ hm')
    obtain ⟨u', has', h''⟩ := ih h' (fun b hb => hn b (List.mem_cons_of_mem _ hb))
      fun m hm' => hm m (List.mem_append_right _ hm')
    exact ⟨u', .cons ha' has', h''⟩

private theorem State.Extends.labelled (h : s.Extends ts s') {label : Option (String × Token)} (hl : s.Labels label t) :
    t = s ∧ s'.Labels label s' := by
  cases hl with
  | absent => exact ⟨rfl, .absent⟩
  | bound hp =>
    rw [h.second] at hp
    cases hp
  | found _ hv =>
    rw [← h.pc] at hv
    exact ⟨rfl, .found h.second' (h.labels _ _ hv)⟩

/-- A line has the same effect. -/
private theorem Line.run_extends {l : Line} (hr : l.run s = .ok () t) (h : s.Extends ts s')
    (hb : ∀ u ∈ l.body, u ∈ ts) :
    ∃ t', l.run s' = .ok () t' ∧ t.Extends ts t' := by
  rcases Line.run_eq_ok.1 hr with ⟨hl, rfl⟩ | ⟨st, hl, hd⟩
  · exact ⟨s', Line.run_eq_ok.2 (.inl ⟨hl, rfl⟩), h⟩
  · suffices ∃ t', st.Does s' t' ∧ t.Extends ts t' by
      obtain ⟨t', hd', h'⟩ := this
      exact ⟨t', Line.run_eq_ok.2 (.inr ⟨st, hl, hd'⟩), h'⟩
    have hrecord : ∀ {u u' : State}, u.Extends ts u' →
        (s.record st.first.line u).Extends ts (s'.record st.first.line u') :=
      fun hu => ⟨hu.second, hu.second', hu.pc, hu.dp, hu.output, hu.ended, hu.symbols, hu.labels, hu.widths⟩
    cases hd with
    | first hp =>
      rw [h.second] at hp
      cases hp
    | second _ hc hlabel ha hf =>
      obtain ⟨rfl, hlabel'⟩ := h.labelled hlabel
      obtain ⟨u', ha', hu⟩ := ha.extends h ((Line.group_of_statement? hl).defined?_eq_none hc)
        fun m hm => hb m (Line.mnemonics_subset hl m hm)
      exact ⟨_, .second h.second' hc hlabel' ha' hf, hrecord hu⟩
    | skipped _ hc hlabel =>
      obtain ⟨rfl, hlabel'⟩ := h.labelled hlabel
      exact ⟨_, .skipped h.second' hc hlabel', hrecord h⟩

/-- A second pass that comes to its end does so with more symbols, too, and with the same bytes. -/
theorem Walked.extends {ls : List Line} {vs : List Visit} (hw : Walked s ls vs t) (h : s.Extends ts s')
    (hb : ∀ l ∈ ls, ∀ u ∈ l.body, u ∈ ts) : ∃ t', walk s' ls = (t', none) ∧ t.Extends ts t' := by
  induction hw generalizing s' with
  | nil s => exact ⟨s', rfl, h⟩
  | ended he ls => exact ⟨s', walk_of_ended (h.ended.trans he) ls, h⟩
  | @cons s t u l ls vs he hr _ ih =>
    obtain ⟨t', hr', h'⟩ := Line.run_extends hr h (hb l (List.mem_cons_self ..))
    obtain ⟨u', hw', h''⟩ := ih h' fun l' hl' => hb l' (List.mem_cons_of_mem _ hl')
    exact ⟨u', (walk_cons_of_ok (h.ended.trans he) hr' ls).trans hw', h''⟩

end Mc6809
