import Mc6809.Proofs.Distances

/-!
# Sizes of instructions

The table has a size for each form of a mnemonic, and branches and relative operands are measured with it.  The
program counter, and with it the labels, follow the bytes that are emitted.  The two agree
(`instruction_has_its_table_size`): an instruction takes the size of the form that its operand selects, and an
indexed one the bytes of its offset on top of that.
-/

namespace Mc6809

/-! ### Selected forms -/

/-- The form that a pattern fixes, and its mode. -/
def Pattern.selected? : Pattern → Option (Mode × Form)
  | inherent f => some (.inherent, f)
  | branch f => some (.relative, f)
  | transfer f | stack f _ _ => some (.immediate, f)
  | general => none

private theorem Mnemonic.form?_of_selected {m : Mnemonic} {mode : Mode} {f : Form}
    (h : m.pattern.selected? = some (mode, f)) : m.form? mode = some f := by
  have hall : ∀ m ∈ all, ∀ p ∈ m.pattern.selected?, m.form? p.1 = some p.2 := by decide +kernel
  exact hall m m.mem_all (mode, f) h

namespace Instruction

/-- The mode that an instruction selects, if its operand is stored in the width `w`. -/
def mode (w : Int) : Instruction → Mode
  | inherent _ => .inherent
  | branch _ _ _ => .relative
  | transfer _ _ _ | stack _ _ | immediate _ _ => .immediate
  | direct _ _ => .direct
  | extended _ _ => .extended
  | address _ => if w = 1 then .direct else .extended
  | pointer _ _ | indexed _ _ _ => .indexed

/-- The bytes of an indexed operand behind its postbyte, if it is stored in the width `w`. -/
def extra (w : Int) : Instruction → Int
  | indexed _ (.offset _ _) _ | indexed _ (.counter _) _ | indexed _ (.target _) _ => w
  | pointer _ _ => 2
  | _ => 0

/-- The widths that can be on record for an instruction. -/
def CanRecord (w : Int) : Instruction → Prop
  | indexed _ (.offset _ _) _ => w = 0 ∨ w = 1 ∨ w = 2
  | address _ | indexed _ (.counter _) _ | indexed _ (.target _) _ => w = 1 ∨ w = 2
  | _ => True

variable {m : Mnemonic} {key : Int} {s : State} {i : Instruction} {ws : List (Int × Int)} {mi : Machine.Instruction}
  {own w : Int}

/-! ### Widths -/

private theorem canRecord_own (h : i.ownWidth? m s = some own) : i.CanRecord own := by
  unfold ownWidth? at h
  split at h
  · cases h
    unfold addressWidth
    split
    · exact .inl rfl
    · exact .inr rfl
  · cases h
    unfold Value.offsetWidth
    split
    · exact .inl rfl
    · split
      · exact .inr (.inl rfl)
      · exact .inr (.inr rfl)
  · cases h
    unfold Value.counterWidth
    split
    · exact .inl rfl
    · exact .inr rfl
  · cases h
    unfold Value.targetWidth
    split
    · exact .inl rfl
    · exact .inr rfl
  · cases h

/-- The width in use is the one on record or the one that the instruction proposes, and either can be recorded. -/
private theorem exists_width (i : Instruction) (m : Mnemonic) (key : Int) (s : State)
    (h : ∀ w, s.pass = .second → s.widths.lookup key = some w → i.CanRecord w) :
    ∃ w, i.CanRecord w ∧ ∀ own, i.ownWidth? m s = some own → s.width key own = w := by
  cases ho : i.ownWidth? m s with
  | some own =>
    refine ⟨s.width key own, ?_, by simp⟩
    unfold State.width State.choose
    split
    · next w hp hw => exact h w hp hw
    · exact canRecord_own ho
  | none =>
    refine ⟨0, ?_, nofun⟩
    cases i with
    | address e => cases ho
    | indexed f operand indirect =>
      cases operand with
      | offset e r => cases ho
      | counter e => cases ho
      | target e => cases ho
      | _ => trivial
    | _ => trivial

/-! ### What is emitted -/

private theorem Encodes.form?_mode (h : i.Encodes m key s ws mi) (hi : i.ReadAs m)
    (hw : ∀ own, i.ownWidth? m s = some own → s.width key own = w) : m.form? (i.mode w) = some mi.form := by
  cases hi with
  | inherent hm =>
    cases h
    exact Mnemonic.form?_of_selected (by rw [hm]; rfl)
  | branch hm =>
    cases h
    exact Mnemonic.form?_of_selected (by rw [hm]; rfl)
  | transfer hm =>
    cases h
    exact Mnemonic.form?_of_selected (by rw [hm]; rfl)
  | stack hm =>
    cases h
    exact Mnemonic.form?_of_selected (by rw [hm]; rfl)
  | immediate _ hf =>
    cases h
    exact hf
  | direct _ hf =>
    cases h
    exact hf
  | extended _ hf =>
    cases h
    exact hf
  | pointer _ hf =>
    cases h
    exact hf
  | indexed _ hf => cases h <;> exact hf
  | address _ =>
    cases h with
    | shortAddress _ hshort hf =>
      rw [mode, if_pos ((hw _ rfl).symm.trans hshort)]
      exact hf
    | longAddress _ hlong hf =>
      rw [mode, if_neg fun h1 => hlong ((hw _ rfl).trans h1)]
      exact hf

private theorem length_ofOffset_of_canRecord {r : IndexRegister} {indirect : Bool} {n : Int}
    (hw : w = 0 ∨ w = 1 ∨ w = 2) :
    ((Machine.Index.ofOffset w r indirect n).bytes.length : Int) = 1 + w := by
  rcases hw with rfl | rfl | rfl <;> rfl

private theorem length_ofCounter_of_canRecord {indirect : Bool} {n : Int} (hw : w = 1 ∨ w = 2) :
    ((Machine.Index.ofCounter w indirect n).bytes.length : Int) = 1 + w := by
  rcases hw with rfl | rfl <;> rfl

/-- Behind the opcode come the bytes that belong to the shape of the operand, and those of an offset. -/
private theorem Encodes.length_operand (h : i.Encodes m key s ws mi) (hrec : i.CanRecord w)
    (hw : ∀ own, i.ownWidth? m s = some own → s.width key own = w) :
    (mi.operand.bytes.length : Int) = mi.operand.shape.size + i.extra w := by
  cases h with
  | branch =>
    unfold Form.displacement
    split <;> rfl
  | immediate =>
    unfold Form.immediate
    split <;> rfl
  | offset =>
    rw [hw _ rfl]
    exact length_ofOffset_of_canRecord hrec
  | counter =>
    rw [hw _ rfl]
    exact length_ofCounter_of_canRecord hrec
  | target _ hwidth =>
    rw [hwidth, hw _ rfl]
    exact length_ofCounter_of_canRecord hrec
  | _ => rfl

private theorem Encodes.length_eq (h : i.Encodes m key s ws mi) (hi : i.Suits m) (hrec : i.CanRecord w)
    (hw : ∀ own, i.ownWidth? m s = some own → s.width key own = w) :
    (mi.bytes.length : Int) = mi.form.size + i.extra w := by
  obtain ⟨hmem, hshape⟩ := h.shape hi
  have hsize := Mnemonic.size_of_mem_forms hmem
  have hoperand := h.length_operand hrec hw
  rw [hshape] at hoperand
  rw [Machine.Instruction.length_bytes]
  omega

end Instruction

/-- An instruction takes the size of the form that it selects in the table, and an indexed one the width of its offset
on top of that, or two bytes for a pointer.  In the second pass its bytes are appended to the output, and in the
first pass the output stays. -/
theorem instruction_has_its_table_size {l : Line} {m : Mnemonic} {mnemonic : Token} {ts : List Token} {s t : State}
    {next : Nat} (hl : l.body = mnemonic :: ts) (hm : mnemonic.lexeme = .opcode m)
    (h : Part.run .instruction l s = .ok next t) :
    ∃ i us, Instruction.read m mnemonic l.stop ts = .ok (i, us) ∧
      ((∀ w, s.pass = .second → s.widths.lookup (mnemonic.index : Int) = some w → i.CanRecord w) →
        ∃ w f, i.CanRecord w ∧
          (∀ own, i.ownWidth? m s = some own → t.widths.lookup (mnemonic.index : Int) = some w) ∧
          m.form? (i.mode w) = some f ∧ t.pc = s.pc + (f.size + i.extra w) ∧
          (s.pass = .second → ∃ bytes, t.output.toList = s.output.toList ++ bytes ∧
            (bytes.length : Int) = f.size + i.extra w) ∧
          (s.pass = .first → t.output = s.output)) := by
  obtain ⟨i, us, hr, hd⟩ := Part.instruct_of_run hl hm h
  refine ⟨i, us, hr, fun hrec => ?_⟩
  obtain ⟨w, hcan, hw⟩ := i.exists_width m mnemonic.index s hrec
  cases hd with
  | @instruct _ _ _ _ ws mi he =>
    have hlength := he.length_eq (Instruction.suits_of_read hr) hcan hw
    refine ⟨w, mi.form, hcan, ?_, he.form?_mode (Instruction.readAs_of_read hr) hw, ?_, ?_, ?_⟩
    · intro own ho
      rw [← hw own ho]
      exact he.lookup_width ho
    · rw [← hlength]
      rfl
    · intro hp
      exact ⟨mi.bytes, by simp [State.emit, hp], hlength⟩
    · intro hp
      simp [State.emit, hp]

/-- The line `leax [4,y]`. -/
private def bracketedLine : Line :=
  ⟨[⟨.opcode .leax, 0, "main.asm", 1, 1⟩, ⟨.bracket, 1, "main.asm", 1, 6⟩, ⟨.integer 4, 2, "main.asm", 1, 7⟩,
    ⟨.comma, 3, "main.asm", 1, 8⟩, ⟨.register .y, 4, "main.asm", 1, 9⟩, ⟨.closing, 5, "main.asm", 1, 10⟩],
    ⟨.eof, 6, "main.asm", 1, 11⟩⟩

/-- A second pass in which a word is on record for its offset. -/
private def wordOnRecord : State :=
  { base := 0x100, pass := .second, widths := [(0, 2)] }

theorem instruction_has_its_table_size_recorded :
    ∃ t i us f, Part.run .instruction bracketedLine wordOnRecord = .ok 6 t ∧
      Instruction.read .leax ⟨.opcode .leax, 0, "main.asm", 1, 1⟩ bracketedLine.stop bracketedLine.body.tail =
        .ok (i, us) ∧
      i.CanRecord 2 ∧ Mnemonic.form? .leax .indexed = some f ∧ t.pc = 0x100 + (f.size + 2) ∧
      ∃ bytes, t.output.toList = bytes ∧ (bytes.length : Int) = f.size + 2 := by
  obtain ⟨i, us, hi, h⟩ := instruction_has_its_table_size (l := bracketedLine) (s := wordOnRecord) rfl rfl rfl
  cases hi
  obtain ⟨w, f, hcan, hrec, hf, hpc, hout, -⟩ := h (by
    intro w _ hw
    cases hw
    exact .inr (.inr rfl))
  cases hrec _ rfl
  exact ⟨_, _, _, f, rfl, rfl, hcan, hf, hpc, hout rfl⟩

end Mc6809
