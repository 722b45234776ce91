import Mc6809.Proofs.Decoding
import Mc6809.Proofs.Layout
import Mc6809.Proofs.OperandShapes

/-!
# Where relative operands lead

A branch, or an operand that is relative to the program counter, holds the signed distance between the address
behind the instruction and a target (`Machine.Instruction.distance?`).  A branch leads to its target unless it is
short and has to go 128 or 129 bytes forward: these distances are accepted, but read back 256 less.  An operand
`t,pcr` that chooses its own width, or has a word for the distance, leads to its target modulo the size of the memory,
however far the target is.
-/

namespace Mc6809

/-- The signed distance that the processor adds to the address behind an instruction to find the operand. -/
def Machine.Instruction.distance? (i : Instruction) : Option Int :=
  match i.form.mode, i.operand with
  | .relative, .byte n => some (n.bmod 0x100)
  | .relative, .word n => some (n.bmod 0x10000)
  | .indexed, .index (.byteCounter _ d) => some d
  | .indexed, .index (.wordCounter _ d) => some d
  | _, _ => none

/-! ### Sizes -/

/-- The bytes of an operand, the offset of an indexed one apart. -/
def Machine.Shape.size : Shape → Nat
  | none => 0
  | word => 2
  | byte | transfer | stack | index => 1

theorem Machine.Instruction.length_bytes (i : Instruction) :
    i.bytes.length = i.form.opcodeSize + i.operand.bytes.length := by
  rw [bytes, List.length_append, opcodeBytes, Form.opcodeSize]
  by_cases h : 0xFF < i.form.opcode
  · rw [if_pos (by omega), if_pos h]
    rfl
  · rw [if_neg (by omega), if_neg h]
    rfl

namespace Mnemonic

variable {m : Mnemonic} {f : Form}

/-- The size of a form is the one of its opcode and of what follows it. -/
theorem size_of_mem_forms (hf : f ∈ m.forms) : f.size = f.opcodeSize + (m.shape f).size := by
  have hall : ∀ m ∈ all, ∀ f ∈ m.forms, f.size = f.opcodeSize + (m.shape f).size := by decide +kernel
  exact hall m m.mem_all f hf

/-- A mnemonic with an indexed form chooses its form by the operand. -/
private theorem pattern_of_indexed (hf : m.form? .indexed = some f) : m.pattern = .general := by
  have hall : ∀ m ∈ all, (m.form? .indexed).isSome = true → m.pattern = .general := by decide +kernel
  exact hall m m.mem_all (by rw [hf, Option.isSome_some])

end Mnemonic

/-! ### Branches -/

namespace Form

variable {m : Mnemonic} {f : Form}

private theorem operandSize_of_relative (hf : f ∈ m.forms) (hs : m.shape f = f.shape) (hr : f.mode = .relative) :
    f.size = f.opcodeSize + f.operandSize ∧ (f.operandSize = 1 ∨ f.operandSize = 2) := by
  have hsize := Mnemonic.size_of_mem_forms hf
  have hoperand : f.operandSize = (m.shape f).size := by
    rw [operandSize]
    omega
  refine ⟨by omega, ?_⟩
  rw [hs, shape, hr] at hoperand
  by_cases h2 : f.operandSize = 2
  · exact .inr h2
  · rw [if_neg h2] at hoperand
    exact .inl hoperand

private theorem length_displacement (h : f.operandSize = 1 ∨ f.operandSize = 2) (d : Int) :
    (f.displacement d).bytes.length = f.operandSize := by
  rcases h with h | h <;> rw [displacement, h] <;> rfl

/-- What is read back of the distance of a branch. -/
def readBack (f : Form) (d : Int) : Int :=
  if f.operandSize = 2 then d.bmod 0x10000 else d.bmod 0x100

private theorem distance?_displacement (hr : f.mode = .relative) (d : Int) :
    Machine.Instruction.distance? ⟨f, (f.displacement d).reduced⟩ = some (f.readBack d) := by
  rw [displacement, readBack]
  by_cases h2 : f.operandSize = 2
  · rw [if_pos h2, if_pos h2]
    simp only [Machine.Instruction.distance?, Machine.Operand.reduced, hr]
    exact congrArg some (Int.emod_bmod d 0x10000)
  · rw [if_neg h2, if_neg h2]
    simp only [Machine.Instruction.distance?, Machine.Operand.reduced, hr]
    exact congrArg some (Int.emod_bmod d 0x100)

/-- A distance that a branch accepts is read back as it is, apart from two that a signed byte cannot hold. -/
private theorem readBack_of_reaches {d : Int} (h : Instruction.reaches (f.operandSize = 2) d = true) :
    (f.operandSize = 2 ∨ d ≤ 127 → f.readBack d = d) ∧
      (f.operandSize ≠ 2 → 127 < d → d ≤ 129 ∧ f.readBack d = d - 0x100) := by
  unfold Instruction.reaches at h
  unfold readBack
  by_cases h2 : f.operandSize = 2
  · simp only [h2, decide_true, ↓reduceIte, Bool.and_eq_true, decide_eq_true_eq] at h ⊢
    exact ⟨fun _ => (Machine.bmod_eq_self_iff d 0x10000 (by decide)).2 (by omega), fun hne => absurd rfl hne⟩
  · simp only [h2, decide_false, Bool.false_eq_true, ↓reduceIte, Bool.and_eq_true, decide_eq_true_eq,
      false_or] at h ⊢
    refine ⟨fun hd => (Machine.bmod_eq_self_iff d 0x100 (by decide)).2 (by omega), fun _ hd => ⟨h.2, ?_⟩⟩
    rw [Int.bmod_eq_iff (by decide)]
    omega

end Form

namespace Line

variable {l : Line} {st : Statement} {m : Mnemonic} {mnemonic : Token} {ts : List Token} {f : Form}

/-- A branch without a fault has a name for its only operand, and asks for nothing else. -/
private theorem branch_of_statement? (hl : l.statement? = some st) (hf : st.fault = none)
    (ho : l.operation = mnemonic :: ts) (hm : mnemonic.lexeme = .opcode m) (hb : m.pattern = .branch f) :
    ∃ target name next, ts = [target] ∧ target.lexeme = .identifier name ∧
      st.actions = [.instruct m mnemonic (.branch f name target) next] := by
  obtain ⟨-, hactions, hfault⟩ := read_of_statement? hl
  rw [hf, ho] at hfault
  rw [ho] at hactions
  simp only [Statement.readBody, hm, Script.readInstruction, Instruction.read, hb] at hactions hfault
  cases ts with
  | nil => cases hfault
  | cons target us =>
    cases hn : target.lexeme with
    | identifier name =>
      simp only [Instruction.readBranch, hn] at hactions hfault
      cases us with
      | nil => exact ⟨target, name, _, rfl, hn, hactions⟩
      | cons => cases hfault
    | _ =>
      simp only [Instruction.readBranch, hn] at hfault
      cases hfault

end Line

namespace Mnemonic

variable {m : Mnemonic} {f : Form}

/-- The form of a branch takes up its size, and the distance can be read back from it. -/
private theorem branch_bytes (hb : m.pattern = .branch f) (d : Int) :
    (Machine.Instruction.bytes ⟨f, f.displacement d⟩).length = f.size ∧
      ∃ i, Machine.decode (Machine.Instruction.bytes ⟨f, f.displacement d⟩) = some (i, []) ∧ i.form = f ∧
        i.distance? = some (f.readBack d) := by
  have hform := m.pattern_form
  rw [hb] at hform
  obtain ⟨hmem, hmode⟩ := hform
  have hshape : m.shape f = f.shape := by rw [shape, hb]
  obtain ⟨hsize, hoperand⟩ := Form.operandSize_of_relative hmem hshape hmode
  constructor
  · rw [Machine.Instruction.length_bytes, Form.length_displacement hoperand, hsize]
  · refine ⟨⟨f, (f.displacement d).reduced⟩, ?_, rfl, Form.distance?_displacement hmode d⟩
    have hdecode := Machine.decode_bytes m hmem ((Form.shape_displacement hmode d).trans hshape.symm) []
    rwa [List.append_nil] at hdecode

end Mnemonic

/-- The second pass carries out a branch only if its target is known and in reach. -/
private theorem Statement.Does.branch {l : Line} {st : Statement} {m : Mnemonic} {mnemonic : Token} {ts : List Token}
    {f : Form} {s t : State} (h : st.Does s t) (hp : s.pass = .second) (hl : l.statement? = some st)
    (ho : l.operation = mnemonic :: ts) (hm : mnemonic.lexeme = .opcode m) (hb : m.pattern = .branch f) :
    ∃ target name value, ts = [target] ∧ target.lexeme = .identifier name ∧
      s.symbols.resolve name = some value ∧
      Instruction.reaches (f.operandSize = 2) (value - (s.pc + f.size)) = true ∧
      t.output.toList = s.output.toList ++
        Machine.Instruction.bytes ⟨f, f.displacement (value - (s.pc + f.size))⟩ := by
  have hconstants : st.constants = false := by
    rw [(Line.read_of_statement? hl).1, ho]
    simp only [readBody, hm]
  cases h with
  | first hp' =>
    rw [hp] at hp'
    cases hp'
  | skipped _ hc =>
    rw [hconstants] at hc
    cases hc
  | second _ _ hlabel ha hf =>
    obtain ⟨target, name, next, hts, hn, hactions⟩ := Line.branch_of_statement? hl hf ho hm hb
    cases hlabel.eq_of_second hp
    rw [hactions] at ha
    cases ha.singleton with
    | instruct he =>
      cases he with
      | branch hd =>
        cases hd with
        | known hv hr => exact ⟨target, name, _, hts, hn, hv, hr, State.output_emit hp _⟩
        | unknown _ hp' => exact absurd hp hp'

/-- Every branch of a source that is assembled takes up the size of its form in the listing, and the distance read
back from it leads from the address behind it to the final value of its target.  The exception is a short branch
that has to go more than 127 bytes forward: up to 129 are accepted, and lead 256 bytes too low. -/
theorem branches_lead_to_their_targets {z z' : Session} {source file : String} {base : Option Int}
    {log : List Report} {code : List UInt8} (h : z.assemble source base file = (z', log, .ok code)) :
    ∃ r tokens, ∃ entries : List (Statement × Row), z'.last = some r ∧ tokenize source file = .ok tokens ∧
      entries.map Prod.fst = (Line.upToEnd (Line.split tokens)).filterMap Line.statement? ∧
      entries.map Prod.snd = r.state.listing.toList ∧
      ∀ e ∈ entries, ∀ (l : Line) (mnemonic : Token) (ts : List Token) (m : Mnemonic) (f : Form),
        l.statement? = some e.1 → l.operation = mnemonic :: ts → mnemonic.lexeme = .opcode m →
        m.pattern = .branch f →
        ∃ (target : Token) (name : String) (value : Int) (i : Machine.Instruction) (d : Int),
          ts = [target] ∧ target.lexeme = .identifier name ∧
          r.state.symbols.resolve name = some value ∧ e.2.data.length = f.size ∧
          Machine.decode e.2.data = some (i, []) ∧ i.form = f ∧ i.distance? = some d ∧
          (f.operandSize = 2 ∨ value - (e.2.address + f.size) ≤ 127 → e.2.address + f.size + d = value) ∧
          (f.operandSize ≠ 2 → 127 < value - (e.2.address + f.size) →
            value - (e.2.address + f.size) ≤ 129 ∧ e.2.address + f.size + d = value - 0x100) := by
  obtain ⟨r, tokens, symbols, s₁, s₂, hlast, -, hrun⟩ := Session.assemble_eq_ok h
  refine ⟨r, tokens, (z.secondPass source base file).flatMap Visit.entries, hlast, hrun.tokenized,
    hrun.second.map_fst_entries rfl, (hrun.listing_eq ▸ hrun.second.listing_eq rfl).symm, ?_⟩
  intro e he l mnemonic ts m f hl ho hm hb
  obtain ⟨v, hv, hev⟩ := List.mem_flatMap.1 he
  obtain ⟨st, hst, rfl⟩ := List.mem_map.1 hev
  have hdoes := Line.does_of_run (Option.mem_toList.1 hst) (hrun.second.run_of_mem hv).2
  obtain ⟨target, name, value, hts, hn, hvalue, hreach, hout⟩ :=
    hdoes.branch (hrun.second.pass_of_mem hv) hl ho hm hb
  have hdata := Visit.data_of_append hout
  obtain ⟨hlength, i, hdecode, hform, hdistance⟩ := Mnemonic.branch_bytes hb (value - (v.before.pc + f.size))
  obtain ⟨hback, hlow⟩ := Form.readBack_of_reaches hreach
  refine ⟨target, name, value, i, f.readBack (value - (v.before.pc + f.size)), hts, hn, hrun.symbols_of_mem hv ▸ hvalue,
    hdata ▸ hlength, hdata ▸ hdecode, hform, hdistance, ?_, ?_⟩
  · intro hd
    have := hback hd
    dsimp only
    omega
  · intro h2 hd
    have := hlow h2 hd
    dsimp only
    omega

/-- A branch that goes as far forward as a signed byte can tell. -/
private def farBranch : String :=
  "bra t\n rmb 127\nt: rts\n"

/-- The first line of that source. -/
private def farBranchLine : Line :=
  ⟨[⟨.opcode .bra, 0, "main.asm", 1, 1⟩, ⟨.identifier "t", 1, "main.asm", 1, 5⟩], ⟨.newline, 2, "main.asm", 1, 6⟩⟩

theorem branches_lead_to_their_targets_far :
    ∃ z' log r row i d, ({ base := 0 } : Session).assemble farBranch none "main.asm" =
        (z', log, .ok (0x20 :: 0x7F :: (List.replicate 127 0 ++ [0x39]))) ∧
      z'.last = some r ∧ row ∈ r.state.listing.toList ∧ row = ⟨0, [0x20, 0x7F], 1⟩ ∧
      r.state.symbols.resolve "t" = some 129 ∧ Machine.decode row.data = some (i, []) ∧ i.distance? = some d ∧
      row.address + 2 + d = 129 := by
  let z : Session := { base := 0 }
  have hrun : (z.assemble farBranch none "main.asm").2.2.toOption =
        some (0x20 :: 0x7F :: (List.replicate 127 0 ++ [0x39])) ∧
      (z.assemble farBranch none "main.asm").1.last.map (·.state.listing.toList.head?) =
        some (some ⟨0, [0x20, 0x7F], 1⟩) ∧
      (z.assemble farBranch none "main.asm").1.last.map (·.state.symbols.resolve "t") = some (some 129) ∧
      (tokenize farBranch "main.asm").toOption.map (fun ts => (Line.upToEnd (Line.split ts)).head?) =
        some (some farBranchLine) := by decide +kernel
  obtain ⟨hcode, hrow, hvalue, hline⟩ := hrun
  have hz := Session.assemble_eq hcode
  obtain ⟨r, tokens, entries, hlast, htokens, hstatements, hrows, hbranches⟩ := branches_lead_to_their_targets hz
  rw [hlast, Option.map_some, Option.some.injEq] at hrow hvalue
  rw [htokens] at hline
  obtain ⟨ls, hls⟩ := List.head?_eq_some_iff.1 (Option.some.inj hline)
  obtain ⟨rows, hrows'⟩ := List.head?_eq_some_iff.1 hrow
  rw [hls] at hstatements
  rw [hrows'] at hrows
  cases entries with
  | nil => cases hrows
  | cons e es =>
    obtain ⟨hfirst, -⟩ := List.cons.inj hstatements
    obtain ⟨hrow', -⟩ := List.cons.inj hrows
    obtain ⟨target, name, value, i, d, hts, hn, hv, -, hdecode, -, hd, hlead, -⟩ :=
      hbranches e (List.mem_cons_self ..) farBranchLine _ _ .bra _ (congrArg some hfirst.symm) rfl rfl rfl
    cases hts
    cases hn
    rw [hvalue] at hv
    cases hv
    rw [hrow'] at hdecode hlead
    exact ⟨_, _, r, _, i, d, hz, hlast, by rw [hrows']; exact List.mem_cons_self .., rfl, hvalue, hdecode, hd,
      hlead (.inr (by decide))⟩

/-- A branch that goes two bytes further. -/
private def tooFarBranch : String :=
  "bra t\n rmb 129\nt: rts\n"

theorem accepted_branch_leads_elsewhere :
    ∃ z' log r row i, ({ base := 0 } : Session).assemble tooFarBranch none "main.asm" =
        (z', log, .ok (0x20 :: 0x81 :: (List.replicate 129 0 ++ [0x39]))) ∧
      z'.last = some r ∧ row ∈ r.state.listing.toList ∧ row = ⟨0, [0x20, 0x81], 1⟩ ∧
      r.state.symbols.resolve "t" = some 131 ∧ Machine.decode row.data = some (i, []) ∧ i.form.size = 2 ∧
      i.distance? = some (-127) ∧ row.address + i.form.size + -127 ≠ 131 := by
  let z : Session := { base := 0 }
  have hrun : (z.assemble tooFarBranch none "main.asm").2.2.toOption =
        some (0x20 :: 0x81 :: (List.replicate 129 0 ++ [0x39])) ∧
      (z.assemble tooFarBranch none "main.asm").1.last.map (·.state.listing.toList.head?) =
        some (some ⟨0, [0x20, 0x81], 1⟩) ∧
      (z.assemble tooFarBranch none "main.asm").1.last.map (·.state.symbols.resolve "t") = some (some 131) ∧
      Machine.decode [0x20, 0x81] = some (⟨⟨.relative, 0x20, 2⟩, .byte 0x81⟩, []) := by decide +kernel
  obtain ⟨hcode, hrow, hvalue, hdecode⟩ := hrun
  obtain ⟨r, hlast, hrow⟩ := Option.map_eq_some_iff.1 hrow
  rw [hlast, Option.map_some, Option.some.injEq] at hvalue
  exact ⟨_, _, r, _, _, Session.assemble_eq hcode, hlast, List.mem_of_mem_head? hrow, rfl, hvalue, hdecode, rfl, rfl,
    by decide⟩

/-! ### Operands relative to the program counter -/

/-- The tokens of an operand `t,pcr` or, if it is indirect, `[t,pcr]`, where `t` is read as an expression. -/
inductive Operand.RelativeTo (stop : Token) (e : Expr) : Bool → List Token → Prop
  | direct {ts : List Token} {comma counter : Token} (he : Expr.read stop ts = .ok (e, [comma, counter]))
      (hc : comma.lexeme = .comma) (hr : counter.lexeme = .register .pcr) : RelativeTo stop e false ts
  | indirect {bracket : Token} {ts : List Token} {comma counter closing : Token} (hb : bracket.lexeme = .bracket)
      (he : Expr.read stop ts = .ok (e, [comma, counter, closing])) (hc : comma.lexeme = .comma)
      (hr : counter.lexeme = .register .pcr) (hcl : closing.lexeme = .closing) :
      RelativeTo stop e true (bracket :: ts)

private theorem Expr.startsWith_of_read {stop : Token} {ts rest : List Token} {e : Expr}
    (h : read stop ts = .ok (e, rest)) : ∃ t us, ts = t :: us ∧ startsWith t.lexeme = true := by
  obtain ⟨used, rfl, he, -⟩ := read_eq_ok_iff.1 h
  obtain ⟨t, us, rfl, hstart⟩ := he.sum.exists_cons
  exact ⟨t, us ++ rest, rfl, hstart⟩

namespace Operand

variable {stop : Token} {ts rest : List Token} {e : Expr}

private theorem readPlain_of_counter (indirect : Bool) {comma counter : Token}
    (he : Expr.read stop ts = .ok (e, comma :: counter :: rest)) (hc : comma.lexeme = .comma)
    (hr : counter.lexeme = .register .pcr) (hrest : NoPlus rest) :
    readPlain stop indirect ts = .ok (.index (.target e), rest) := by
  obtain ⟨used, rfl, he, -⟩ := Expr.read_eq_ok_iff.1 he
  exact readPlain_eq_ok_iff.2 ⟨used ++ comma :: [counter], by simp, .index (.offset he) hc (.target hr hrest)⟩

end Operand

namespace Instruction

variable {m : Mnemonic} {mnemonic stop : Token} {ts : List Token} {f : Form} {e : Expr} {indirect : Bool}

private theorem require_of_form? {mode : Mode} (h : m.form? mode = some f) (index : Nat) :
    require m mnemonic mode index = .ok f := by
  rw [require, h]

/-- An operand that is relative to the program counter is read as such. -/
private theorem read_of_relativeTo (mnemonic : Token) (h : Operand.RelativeTo stop e indirect ts)
    (hf : m.form? .indexed = some f) :
    read m mnemonic stop ts = .ok (.indexed f (.target e) indirect, []) := by
  simp only [read, Mnemonic.pattern_of_indexed hf]
  cases h with
  | direct he hc hr =>
    have hplain := Operand.readPlain_of_counter false he hc hr (by simp [Operand.NoPlus])
    have hunmarked : readUnmarked m mnemonic stop ts = .ok (.indexed f (.target e) false, []) := by
      simp only [readUnmarked, hplain, require_of_form? hf]
    obtain ⟨t, us, rfl, hstart⟩ := Expr.startsWith_of_read he
    -- An expression starts with neither a mark nor a bracket.
    simp only [readGeneral]
    split
    case h_5 => exact hunmarked
    all_goals
      next hl =>
      rw [hl] at hstart
      cases hstart
  | @indirect bracket ts comma counter closing hb he hc hr hcl =>
    have hstep : Operand.NoPlus [closing] := by
      simp [Operand.NoPlus, hcl]
    have hplain := Operand.readPlain_of_counter true he hc hr hstep
    simp only [readGeneral, hb, readIndirect, hplain, afterLexeme?, hcl, ↓reduceIte, require_of_form? hf]
    rfl

end Instruction

/-- The instruction that is read back from an indexed form whose operand is a distance: the distance comes back as
it is from a byte that can hold it, and modulo the size of the memory from a word. -/
private theorem Mnemonic.counter_bytes {m : Mnemonic} {f : Form} (hf : m.form? .indexed = some f) (indirect : Bool)
    {w d : Int} (hw : w = 1 ∧ -128 ≤ d ∧ d ≤ 127 ∨ w = 2) :
    ∃ i d', Machine.decode (Machine.Instruction.bytes ⟨f, .index (.ofCounter w indirect d)⟩) = some (i, []) ∧
      i.form = f ∧ i.distance? = some d' ∧ d' % 0x10000 = d % 0x10000 ∧
      ((Machine.Instruction.bytes ⟨f, .index (.ofCounter w indirect d)⟩).length : Int) = f.size + w ∧
      i.operand = .index (if w = 1 then .byteCounter indirect d' else .wordCounter indirect d') := by
  obtain ⟨hmem, hmode⟩ := form?_eq_some hf
  have hshape : m.shape f = .index := by rw [shape, pattern_of_indexed hf, Form.shape, hmode]
  have hsize := size_of_mem_forms hmem
  rw [hshape, Machine.Shape.size] at hsize
  have hdecode := Machine.decode_bytes (o := .index (.ofCounter w indirect d)) m hmem hshape.symm []
  rw [List.append_nil] at hdecode
  rcases hw with ⟨rfl, hlow, hhigh⟩ | rfl
  · refine ⟨_, d.bmod 0x100, hdecode, rfl, ?_, ?_, ?_, rfl⟩
    · simp only [Machine.Instruction.distance?, hmode]
      rfl
    · rw [(Machine.bmod_eq_self_iff d 0x100 (by decide)).2 (by omega)]
    · rw [Machine.Instruction.length_bytes]
      show ((f.opcodeSize + 2 : Nat) : Int) = f.size + 1
      omega
  · refine ⟨_, d.bmod 0x10000, hdecode, rfl, ?_, ?_, ?_, rfl⟩
    · simp only [Machine.Instruction.distance?, hmode]
      rfl
    · exact Int.bmod_emod
    · rw [Machine.Instruction.length_bytes]
      show ((f.opcodeSize + 3 : Nat) : Int) = f.size + 2
      omega

/-- One byte is proposed for the distance of a known target exactly if it fits behind an operand of that size. -/
private theorem Value.targetWidth_eq_one_iff {v : Value} (hv : v.settled = true) (after : Int) :
    v.targetWidth after = 1 ↔ -128 ≤ v.total - (after + 1) ∧ v.total - (after + 1) ≤ 127 := by
  unfold targetWidth
  by_cases h : -128 ≤ v.total - (after + 1) ∧ v.total - (after + 1) ≤ 127
  · simp [hv, h]
  · have hc : ¬(v.settled && -128 ≤ v.total - (after + 1) && v.total - (after + 1) ≤ 127) = true := by
      simpa [hv] using h
    rw [if_neg hc]
    exact ⟨fun h' => absurd h' (by decide), fun h' => absurd h' h⟩

open Assemble in
/-- An instruction that is read and can be carried out is carried out by itself. -/
private theorem Part.run_of_instruct {l : Line} {m : Mnemonic} {mnemonic : Token} {ts us : List Token} {i : Instruction}
    {s t : State} (hl : l.body = mnemonic :: ts) (hm : mnemonic.lexeme = .opcode m)
    (hr : Instruction.read m mnemonic l.stop ts = .ok (i, us))
    (hd : Action.Does s (.instruct m mnemonic i (nextToken l.stop us).index) t) :
    Part.run .instruction l s = .ok (nextToken l.stop us).index t := by
  have hread : Part.read? .instruction s.pass l = some (Script.readInstruction m mnemonic l.stop ts) := by
    simp only [Part.read?, hl, hm]
  rw [Part.run, get_bind]
  simp only [hread, Script.run, Script.readInstruction, hr]
  exact bind_eq_ok.2 ⟨(), t, Action.forM_run_eq_ok.2 (.cons hd (.nil t)), rfl⟩

/-- In the second pass an operand `t,pcr` or `[t,pcr]` with a known target is always accepted if no width is recorded
for it or a width of two bytes, and the distance in its bytes leads from the address behind them to the target, modulo
the size of the memory.  If no width is recorded, the distance takes one byte exactly if the target is in reach of a
signed byte from behind an instruction of that size. -/
theorem relative_operands_lead_to_their_targets {l : Line} {m : Mnemonic} {mnemonic : Token} {ts : List Token}
    {f : Form} {e : Expr} {indirect : Bool} {s : State} (hl : l.body = mnemonic :: ts)
    (hm : mnemonic.lexeme = .opcode m) (hf : m.form? .indexed = some f)
    (ht : Operand.RelativeTo l.stop e indirect ts) (hp : s.pass = .second) (hs : (s.value e).settled = true)
    (hw : s.widths.lookup (mnemonic.index : Int) = none ∨ s.widths.lookup (mnemonic.index : Int) = some 2) :
    ∃ t bytes i d, Part.run .instruction l s = .ok l.stop.index t ∧
      t.output.toList = s.output.toList ++ bytes ∧ Machine.decode bytes = some (i, []) ∧ i.form = f ∧
      i.distance? = some d ∧ (s.pc + bytes.length + d) % 0x10000 = (s.value e).total % 0x10000 ∧
      (i.operand = .index (.byteCounter indirect d) ∧ bytes.length = f.size + 1 ∨
        i.operand = .index (.wordCounter indirect d) ∧ bytes.length = f.size + 2) ∧
      (s.widths.lookup (mnemonic.index : Int) = none →
        (bytes.length = f.size + 1 ↔
          -128 ≤ (s.value e).total - (s.pc + (f.size + 1)) ∧ (s.value e).total - (s.pc + (f.size + 1)) ≤ 127)) := by
  have hread := Instruction.read_of_relativeTo mnemonic ht hf
  have hone := Value.targetWidth_eq_one_iff hs (s.pc + f.size)
  have hencodes : (Instruction.indexed f (.target e) indirect).Encodes m mnemonic.index s _ _ :=
    .target (fun _ => hs) rfl
  generalize hown : (s.value e).targetWidth (s.pc + f.size) = own at hone hencodes
  have hown2 : own = 1 ∨ own = 2 := by
    rw [← hown, Value.targetWidth]
    split
    · exact .inl rfl
    · exact .inr rfl
  -- The width in use is the proposed one, or else it is two; a single byte is used only if it was proposed.
  generalize hwidth : s.width (mnemonic.index : Int) own = w at hencodes
  have hcases : w = own ∨ w = 2 := by
    rcases hw with hw | hw
    · exact .inl (hwidth.symm.trans (State.width_of_unrecorded hw own))
    · exact .inr (hwidth.symm.trans (State.width_of_recorded hp hw))
  obtain ⟨i, d, hdecode, hform, hd, hmod, hlength, hoperand⟩ :=
    Mnemonic.counter_bytes hf indirect (w := w) (d := (s.value e).total - (s.pc + f.size + w)) (by omega)
  refine ⟨_, _, i, d, Part.run_of_instruct hl hm hread (.instruct hencodes), State.output_emit hp _, hdecode, hform,
    hd, by omega, ?_, ?_⟩
  · by_cases h1 : w = 1
    · rw [if_pos h1] at hoperand
      exact .inl ⟨hoperand, by omega⟩
    · rw [if_neg h1] at hoperand
      exact .inr ⟨hoperand, by omega⟩
  · intro hnone
    have hw' := hwidth.symm.trans (State.width_of_unrecorded hnone own)
    omega

/-- The line `cmpy [$12345,pcr]`. -/
private def relativeLine : Line :=
  ⟨[⟨.opcode .cmpy, 0, "main.asm", 1, 1⟩, ⟨.bracket, 1, "main.asm", 1, 6⟩,
    ⟨.integer 0x12345, 2, "main.asm", 1, 7⟩, ⟨.comma, 3, "main.asm", 1, 13⟩,
    ⟨.register .pcr, 4, "main.asm", 1, 14⟩, ⟨.closing, 5, "main.asm", 1, 17⟩], ⟨.eof, 6, "main.asm", 1, 18⟩⟩

theorem relative_operands_lead_to_their_targets_outside_memory :
    ∃ t d, Part.run .instruction relativeLine { base := 0, pc := -7, pass := .second, widths := [(0, 2)] } =
        .ok 6 t ∧
      t.output.toList = [0x10, 0xAC, 0x9D, 0x23, 0x47] ∧
      Machine.decode t.output.toList = some (⟨⟨.indexed, 0x10AC, 3⟩, .index (.wordCounter true d)⟩, []) ∧
      (-7 + 5 + d) % 0x10000 = 0x12345 % 0x10000 := by
  obtain ⟨t, bytes, i, d, hrun, hout, hdecode, hform, -, hmod, hoperand, -⟩ :=
    relative_operands_lead_to_their_targets (l := relativeLine) (m := .cmpy)
      (s := { base := 0, pc := -7, pass := .second, widths := [(0, 2)] }) rfl rfl rfl
      (.indirect rfl rfl rfl rfl rfl) rfl rfl (.inr rfl)
  cases hrun
  cases hout
  refine ⟨_, d, rfl, by decide, ?_, hmod⟩
  rcases hoperand with ⟨-, hlength⟩ | ⟨hoperand, -⟩
  · cases hlength
  · obtain ⟨f, o⟩ := i
    cases hform
    cases hoperand
    exact hdecode

end Mc6809
