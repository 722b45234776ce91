import Mc6809.Proofs.Decoding
import Mc6809.Proofs.Session

/-!
# Widths of operands

The first pass settles how wide each operand is, and the second one stores the operand in that width.  An operand
is read back as it was meant exactly if the recorded width is enough for the value that it has in the end
(`Visit.Settled.faithful_iff_wideEnough`).  A width is enough for the value that the first pass knew, and a value
that it did not know gets the widest form; so a width can be too narrow only if a value changes after the first
pass has used it, and that takes a constant with the name of a label (`Visit.Settled.wideEnough`).
-/

namespace Mc6809

/-! ### The widths that operands ask for -/

namespace Instruction

/-- The expression whose value decides how wide the operand is. -/
def sized? : Instruction → Option Expr
  | address e | indexed _ (.offset e _) _ | indexed _ (.counter e) _ | indexed _ (.target e) _ => some e
  | _ => none

variable {m : Mnemonic} {s s₁ s₂ : State} {i : Instruction} {e : Expr} {own : Int}

theorem ownWidth?_of_none (h : i.sized? = none) (m : Mnemonic) (s : State) : i.ownWidth? m s = none := by
  cases i with
  | address => cases h
  | indexed f o indirect =>
    cases o with
    | offset => cases h
    | counter => cases h
    | target => cases h
    | _ => rfl
  | _ => rfl

theorem ownWidth?_of_some (h : i.sized? = some e) (m : Mnemonic) (s : State) :
    ∃ own, i.ownWidth? m s = some own := by
  cases i with
  | address => exact ⟨_, rfl⟩
  | indexed f o indirect =>
    cases o with
    | offset => exact ⟨_, rfl⟩
    | counter => exact ⟨_, rfl⟩
    | target => exact ⟨_, rfl⟩
    | _ => cases h
  | _ => cases h

/-- An operand asks for the same width at the same place if it has the same value. -/
theorem ownWidth?_congr (h : i.sized? = some e) (hv : s₂.value e = s₁.value e) (hpc : s₂.pc = s₁.pc)
    (hdp : s₂.dp = s₁.dp) : i.ownWidth? m s₂ = i.ownWidth? m s₁ := by
  cases i with
  | address =>
    cases h
    have hshort : ∀ address, s₂.isShort address = s₁.isShort address := by
      intro address
      rw [State.isShort, State.isShort, State.onPage, State.onPage, hdp]
    simp only [ownWidth?, addressWidth, hv, hshort]
  | indexed f o indirect =>
    cases o with
    | offset =>
      cases h
      simp only [ownWidth?, hv]
    | counter =>
      cases h
      simp only [ownWidth?, hv]
    | target =>
      cases h
      simp only [ownWidth?, hv, hpc]
    | _ => cases h
  | _ => cases h

/-- An operand whose value is not known yet asks for the widest form. -/
private theorem ownWidth?_of_unsettled (h : i.sized? = some e) (hs : (s.value e).settled = false) :
    i.ownWidth? m s = some 2 := by
  cases i with
  | address =>
    cases h
    simp [ownWidth?, addressWidth, hs]
  | indexed f o indirect =>
    cases o with
    | offset =>
      cases h
      simp [ownWidth?, Value.offsetWidth, hs]
    | counter =>
      cases h
      simp [ownWidth?, Value.counterWidth, hs]
    | target =>
      cases h
      simp [ownWidth?, Value.targetWidth, hs]
    | _ => cases h
  | _ => cases h

/-- The widest form is enough for every value. -/
private theorem enough_two (i : Instruction) (s : State) : i.Enough s 2 := by
  unfold Enough
  split
  · intro h
    cases h
  · exact ⟨fun h => absurd h (by decide), fun h => absurd h (by decide)⟩
  · intro h
    cases h
  · exact ⟨by decide, fun h => absurd h (by decide)⟩
  · trivial

/-- A width that an operand asks for stays enough at the same place as long as symbols keep their values. -/
private theorem enough_of_keptIn (ho : i.ownWidth? m s₁ = some own) (hk : s₁.symbols.KeptIn s₂.symbols)
    (hpc : s₂.pc = s₁.pc) (hdp : s₂.dp = s₁.dp) : i.Enough s₂ own := by
  rcases h : i.sized? with _ | e
  · rw [ownWidth?_of_none h] at ho
    cases ho
  -- A value that is known keeps what it is; for one that is not known yet the width is the widest.
  · by_cases hs : (s₁.value e).settled = true
    · have hv : s₂.value e = s₁.value e := Expr.value_of_keptIn hk hs _
      exact enough_of_own_le ((ownWidth?_congr h hv hpc hdp).trans ho) (Int.le_refl own)
    · rw [ownWidth?_of_unsettled h (by simpa using hs)] at ho
      cases ho
      exact i.enough_two s₂

/-- The first pass records the width that an operand asks for. -/
theorem Encodes.lookup_own {key : Int} {ws : List (Int × Int)} {mi : Machine.Instruction}
    (h : i.Encodes m key s ws mi) (hp : s.pass = .first) (ho : i.ownWidth? m s = some own) :
    ws.lookup key = some own := by
  rw [h.lookup_width ho, State.width_of_first hp]

end Instruction

/-! ### Lines of both passes -/

/-- A line with an instruction in both passes: how it is encoded in them, and what it leaves. -/
structure Visit.Instructs (v₁ v₂ : Visit) (m : Mnemonic) (mnemonic : Token) (i : Instruction) (u₁ : State)
    (ws₁ ws₂ : List (Int × Int)) (mi₁ mi₂ : Machine.Instruction) : Prop where
  suits : i.Suits m
  first : i.Encodes m mnemonic.index u₁ ws₁ mi₁
  second : i.Encodes m mnemonic.index v₂.before ws₂ mi₂
  pass : u₁.pass = .first
  pc : u₁.pc = v₁.before.pc
  dp : u₁.dp = v₁.before.dp
  symbols : u₁.symbols = v₁.after.symbols
  recorded : v₂.before.widths.lookup (mnemonic.index : Int) = ws₁.lookup (mnemonic.index : Int)
  data : v₂.data = mi₂.bytes

namespace Visit

variable {t : State} {v₁ v₂ : Visit} {m : Mnemonic} {mnemonic : Token} {i : Instruction} {next : Nat}

theorem Settled.instructs (hv : v₁.Settled t) (hR : State.Retraces t v₁.before v₂.before) (hl : v₂.line = v₁.line)
    (hr : v₂.line.run v₂.before = .ok () v₂.after) (hi : .instruct m mnemonic i next ∈ v₂.line.actions) :
    ∃ u₁ ws₁ ws₂ mi₁ mi₂, Instructs v₁ v₂ m mnemonic i u₁ ws₁ ws₂ mi₁ mi₂ := by
  have hst : ∃ st, v₂.line.statement? = some st := by
    rcases h : v₂.line.statement? with _ | st
    · rw [Line.actions, h] at hi
      cases hi
    · exact ⟨st, rfl⟩
  obtain ⟨st, hst⟩ := hst
  rw [Line.actions_of_statement? hst] at hi
  obtain ⟨hc, ha, hmem, us, rest, hread⟩ := Line.instruct_mem hst hi
  have h₁ := Line.does_of_run (hl ▸ hst) hv.run
  have h₂ := Line.does_of_run hst hr
  obtain ⟨u₁, hlabel, hd₁, -⟩ := h₁.of_first hv.pass
  obtain ⟨-, u₂, hafter, ⟨hc', -⟩ | ⟨-, hd₂⟩⟩ := h₂.of_second hR.pass
  · rw [hc] at hc'
    cases hc'
  · rw [ha] at hd₁ hd₂
    obtain ⟨hpass, hpc, hdp, -, -, -⟩ := hlabel.same
    have hsymbols := hd₁.symbols_of_defined? (by simp [Action.defined?])
    generalize hend : v₁.after = w₁ at hd₁ hsymbols
    cases hd₁.singleton with
    | @instruct _ _ _ _ ws₁ mi₁ e₁ =>
      cases hd₂.singleton with
      | @instruct _ _ _ _ ws₂ mi₂ e₂ =>
        refine ⟨u₁, ws₁, ws₂, mi₁, mi₂, Instruction.suits_of_read hread, e₁, e₂, hpass.trans hv.pass, hpc, hdp,
          ?_, ?_, ?_⟩
        · rw [hend, hsymbols]
        · rw [hR.widths, hv.widths mnemonic (hl ▸ hmem), hend]
          rfl
        · refine data_of_append ?_
          rw [hafter]
          exact State.output_emit (s := { v₂.before with widths := ws₂ }) hR.pass _

private theorem Instructs.decode {u₁ : State} {ws₁ ws₂ : List (Int × Int)} {mi₁ mi₂ : Machine.Instruction}
    (h : Instructs v₁ v₂ m mnemonic i u₁ ws₁ ws₂ mi₁ mi₂) :
    Machine.decode v₂.data = some (⟨mi₂.form, mi₂.operand.reduced⟩, []) := by
  rw [h.data, ← List.append_nil mi₂.bytes]
  exact h.second.decode h.suits []

/-- The operand is read back as it was meant exactly if the recorded width is enough for it. -/
private theorem Instructs.storedAs_iff {u₁ : State} {ws₁ ws₂ : List (Int × Int)} {mi₁ mi₂ : Machine.Instruction}
    (h : Instructs v₁ v₂ m mnemonic i u₁ ws₁ ws₂ mi₁ mi₂) (hp : v₂.before.pass = .second) :
    i.StoredAs m v₂.before ⟨mi₂.form, mi₂.operand.reduced⟩ ↔
      ∀ w, v₂.before.widths.lookup (mnemonic.index : Int) = some w → i.Enough v₂.before w := by
  rcases hs : i.sized? with _ | e
  · have hnone := Instruction.ownWidth?_of_none hs m v₂.before
    refine ⟨fun _ w _ => Instruction.enough_of_none hnone w, fun _ => ?_⟩
    refine (h.second.storedAs_iff hp (w := 0) ?_ (by decide) (by decide)).2 (Instruction.enough_of_none hnone 0)
    simp [hnone]
  · obtain ⟨own, ho⟩ := Instruction.ownWidth?_of_some hs m u₁
    have hrec := h.recorded.trans (h.first.lookup_own h.pass ho)
    obtain ⟨h0, h2⟩ := Instruction.ownWidth?_mem ho
    rw [h.second.storedAs_iff hp (fun _ _ => State.width_of_recorded hp hrec) h0 h2, hrec]
    constructor
    · intro he w hw
      cases hw
      exact he
    · intro he
      exact he own rfl

/-- At the same place, with all symbols as they were, the recorded width is enough. -/
private theorem Instructs.enough {u₁ : State} {ws₁ ws₂ : List (Int × Int)} {mi₁ mi₂ : Machine.Instruction}
    (h : Instructs v₁ v₂ m mnemonic i u₁ ws₁ ws₂ mi₁ mi₂) (hk : v₁.after.symbols.KeptIn v₂.before.symbols)
    (hs : v₁.before.Lockstep v₂.before) {w : Int}
    (hw : v₂.before.widths.lookup (mnemonic.index : Int) = some w) : i.Enough v₂.before w := by
  rcases hsized : i.sized? with _ | e
  · exact Instruction.enough_of_none (Instruction.ownWidth?_of_none hsized m v₂.before) w
  · obtain ⟨own, ho⟩ := Instruction.ownWidth?_of_some hsized m u₁
    have hrec := h.recorded.trans (h.first.lookup_own h.pass ho)
    rw [hrec] at hw
    cases hw
    exact Instruction.enough_of_keptIn ho (h.symbols ▸ hk) (hs.pc.trans h.pc.symm) (hs.dp.trans h.dp.symm)

/-- Every instruction of a line is read back from the bytes of the line as it was meant. -/
def Faithful (v : Visit) : Prop :=
  ∀ m mnemonic i next, .instruct m mnemonic i next ∈ v.line.actions →
    ∃ mi, Machine.decode v.data = some (mi, []) ∧ i.StoredAs m v.before mi

/-- The widths that are recorded for the instructions of a line are enough for their operands. -/
def WideEnough (v : Visit) : Prop :=
  ∀ m mnemonic i next, .instruct m mnemonic i next ∈ v.line.actions →
    ∀ w, v.before.widths.lookup (mnemonic.index : Int) = some w → i.Enough v.before w

theorem Settled.faithful_iff_wideEnough (hv : v₁.Settled t) (hR : State.Retraces t v₁.before v₂.before)
    (hl : v₂.line = v₁.line) (hr : v₂.line.run v₂.before = .ok () v₂.after) : v₂.Faithful ↔ v₂.WideEnough := by
  constructor
  · intro hf m mnemonic i next hi
    obtain ⟨u₁, ws₁, ws₂, mi₁, mi₂, h⟩ := hv.instructs hR hl hr hi
    obtain ⟨mi, hdecode, hstored⟩ := hf m mnemonic i next hi
    rw [h.decode] at hdecode
    cases hdecode
    exact (h.storedAs_iff hR.pass).1 hstored
  · intro he m mnemonic i next hi
    obtain ⟨u₁, ws₁, ws₂, mi₁, mi₂, h⟩ := hv.instructs hR hl hr hi
    exact ⟨_, h.decode, (h.storedAs_iff hR.pass).2 (he m mnemonic i next hi)⟩

theorem Settled.wideEnough (hv : v₁.Settled t) (hR : State.Retraces t v₁.before v₂.before) (hl : v₂.line = v₁.line)
    (hr : v₂.line.run v₂.before = .ok () v₂.after) (hk : v₁.after.symbols.KeptIn t.symbols)
    (hs : v₁.before.Lockstep v₂.before) : v₂.WideEnough := by
  intro m mnemonic i next hi w hw
  obtain ⟨u₁, ws₁, ws₂, mi₁, mi₂, h⟩ := hv.instructs hR hl hr hi
  exact h.enough (hR.symbols ▸ hk) hs hw

end Visit

/-- Whatever a source is assembled to, an instruction is read back from the output as it was meant, with the
values that symbols have in the end, exactly if the width that the first pass recorded for it is enough for the
value of its operand.  If no constant takes the name of a label, every instruction is. -/
theorem faithful_iff_wide_enough {z z' : Session} {source file : String} {base : Option Int} {log : List Report}
    {code : List UInt8} (h : z.assemble source base file = (z', log, .ok code)) :
    ∃ r, z'.last = some r ∧ code = (z.secondPass source base file).flatMap Visit.data ∧
      (∀ v ∈ z.secondPass source base file,
        v.before.symbols = r.state.symbols ∧ v.before.widths = r.state.widths ∧ (v.Faithful ↔ v.WideEnough)) ∧
      ((∀ v ∈ z.firstPass source base file, v.Unshadowed) →
        ∀ v ∈ z.secondPass source base file, v.Faithful) := by
  obtain ⟨r, tokens, symbols, s₁, s₂, hlast, hcode, hrun⟩ := Session.assemble_eq_ok h
  have hapart := Line.split_apart (tokenize_index hrun.tokenized)
  obtain ⟨hsymbols, hwidths⟩ := hrun.first.keeps rfl rfl hapart hrun.second
  refine ⟨r, hlast, ?_, ?_, ?_⟩
  · rw [hcode, hrun.output_eq, hrun.second.output_eq rfl]
    rfl
  · intro v hv
    obtain ⟨k, hk⟩ := List.getElem?_of_mem hv
    obtain ⟨v₁, -, hl, hset, hR, -⟩ := hrun.first.retraces rfl rfl hapart (k := k) (hrun.second.visits_eq ▸ hk)
    refine ⟨?_, ?_, hset.faithful_iff_wideEnough hR hl (hrun.second.run_of_mem hv).2⟩
    · rw [hR.symbols, hrun.symbols_eq, hsymbols]
    · rw [hR.widths, hrun.widths_eq, hwidths]
  · intro hn v hv
    have hstart : (z.start base symbols).Lockstep s₁.turn := ⟨hrun.first.base, rfl, rfl⟩
    obtain ⟨k, hk⟩ := List.getElem?_of_mem hv
    have hk' : (visits s₁.turn (Line.split tokens))[k]? = some v := hrun.second.visits_eq ▸ hk
    obtain ⟨v₁, hv₁, hl, hset, hR, -⟩ := hrun.first.retraces rfl rfl hapart hk'
    obtain ⟨w₁, hw₁, -, hlock, -⟩ := (hrun.first.lockstep rfl hstart hapart hn).1 k v hk'
    rw [hv₁] at hw₁
    cases hw₁
    have hr := (hrun.second.run_of_mem hv).2
    have hkept := hrun.first.keptIn rfl hapart hn v₁ (List.mem_of_getElem? hv₁)
    exact (hset.faithful_iff_wideEnough hR hl hr).2 (hset.wideEnough hR hl hr hkept hlock)

theorem faithful_iff_wide_enough_page_zero :
    ∃ z' log, ({ base := 0 } : Session).assemble "p: lda p\n ldb 3,x\n" none "main.asm" =
        (z', log, .ok [0x96, 0x00, 0xE6, 0x03]) ∧
      (∀ v ∈ ({ base := 0 } : Session).firstPass "p: lda p\n ldb 3,x\n" none "main.asm", v.Unshadowed) ∧
      (({ base := 0 } : Session).secondPass "p: lda p\n ldb 3,x\n" none "main.asm").map Visit.data =
        [[0x96, 0x00], [0xE6, 0x03]] ∧
      ∀ v ∈ ({ base := 0 } : Session).secondPass "p: lda p\n ldb 3,x\n" none "main.asm", v.Faithful := by
  have hcode : (({ base := 0 } : Session).assemble "p: lda p\n ldb 3,x\n" none "main.asm").2.2.toOption =
      some [0x96, 0x00, 0xE6, 0x03] := by decide +kernel
  have hn : ∀ v ∈ ({ base := 0 } : Session).firstPass "p: lda p\n ldb 3,x\n" none "main.asm", v.Unshadowed := by
    decide +kernel
  obtain ⟨r, -, -, -, hfaithful⟩ := faithful_iff_wide_enough (Session.assemble_eq hcode)
  exact ⟨_, _, Session.assemble_eq hcode, hn, by decide +kernel, hfaithful hn⟩

/-- A constant that takes the name of a label after the label was used. -/
private def shadowing : String :=
  "foo: lda foo\nfoo = $1234\n"

theorem truncated_by_shadowing :
    ∃ z' log, ({ base := 0 } : Session).assemble shadowing none "main.asm" = (z', log, .ok [0x96, 0x34]) ∧
      z'.constants = [("foo", 0x1234)] ∧
      ∃ v ∈ ({ base := 0 } : Session).secondPass shadowing none "main.asm", ¬v.Faithful := by
  have hcode : (({ base := 0 } : Session).assemble shadowing none "main.asm").2.2.toOption =
      some [0x96, 0x34] := by decide +kernel
  refine ⟨_, _, Session.assemble_eq hcode, by decide +kernel, ?_⟩
  let place : Token := ⟨.identifier "foo", 2, "main.asm", 1, 10⟩
  let e : Expr := ⟨place, [⟨1, .symbol "foo", place⟩]⟩
  have hsite : ∃ v ∈ ({ base := 0 } : Session).secondPass shadowing none "main.asm",
      (.instruct .lda ⟨.opcode .lda, 1, "main.asm", 1, 6⟩ (.address e) 3) ∈ v.line.actions ∧
      Machine.decode v.data = some (⟨⟨.direct, 0x96, 2⟩, .byte 0x34⟩, []) ∧
      v.before.isShort (v.before.value e).total = false := by
    decide +kernel
  obtain ⟨v, hv, hi, hdecode, hshort⟩ := hsite
  refine ⟨v, hv, fun hf => ?_⟩
  obtain ⟨mi, hmi, hstored⟩ := hf _ _ _ _ hi
  rw [hdecode] at hmi
  cases hmi
  -- Only a short address may stand in the direct form.
  generalize hn : (0x34 : Int) = n at hstored
  cases hstored with
  | shortAddress _ h =>
    rw [hshort] at h
    cases h

end Mc6809
