import Mc6809.Assembly.Part
import Mc6809.Proofs.Assembly.Effect
import Mc6809.Proofs.Machine.Decoder

/-!
# What is read back from an assembled instruction

An instruction that was read for a mnemonic has one of its forms, with the shape that the operand needs
(`Instruction.suits_of_read`), so the decoder reads back every assembled instruction
(`Instruction.Encodes.decode`). Values come back modulo the size of the form, and offsets come back as they are,
provided that a width recorded for the operand is not narrower than the one the operand asks for
(`Instruction.StoredAs`).
-/

namespace Mc6809

/-! ### Forms of mnemonics -/

namespace Mnemonic

variable {m : Mnemonic} {f : Form}

theorem form?_eq_some {mode : Mode} (h : m.form? mode = some f) : f ∈ m.forms ∧ f.mode = mode := by
  refine ⟨List.mem_of_find?_eq_some h, ?_⟩
  simpa using List.find?_some h

/-- The form in the pattern of a mnemonic is its only one, in the mode that the pattern says. -/
theorem pattern_form (m : Mnemonic) :
    match m.pattern with
    | .inherent f => f ∈ m.forms ∧ f.mode = .inherent
    | .branch f => f ∈ m.forms ∧ f.mode = .relative
    | .transfer f => f ∈ m.forms
    | .stack f _ _ => f ∈ m.forms
    | .general => True := by
  rcases hforms : m.forms with _ | ⟨f, _ | ⟨g, gs⟩⟩
  · simp only [pattern, hforms]
  · have hf : f ∈ [f] := List.mem_singleton_self f
    simp only [pattern, hforms]
    cases hm : f.mode with
    | inherent => exact ⟨hf, hm⟩
    | relative => exact ⟨hf, hm⟩
    | _ =>
      cases m.stack? with
      | some p => exact hf
      | none =>
        cases m.isTransfer with
        | true => exact hf
        | false => trivial
  · simp only [pattern, hforms]

end Mnemonic

namespace Form

variable {f : Form}

private theorem shape_immediate (h : f.mode = .immediate) (n : Int) : (f.immediate n).shape = f.shape := by
  rw [shape, h, immediate]
  split <;> rfl

theorem shape_displacement (h : f.mode = .relative) (d : Int) : (f.displacement d).shape = f.shape := by
  rw [shape, h, displacement]
  split <;> rfl

end Form

/-! ### Instructions as they are read -/

namespace Instruction

/-- The form of an instruction is one of its mnemonic's and has the shape of the operand. -/
def Suits (m : Mnemonic) : Instruction → Prop
  | inherent f => f ∈ m.forms ∧ m.shape f = .none
  | branch f _ _ => f ∈ m.forms ∧ f.mode = .relative ∧ m.shape f = f.shape
  | transfer f _ _ => f ∈ m.forms ∧ m.shape f = .transfer
  | stack f _ => f ∈ m.forms ∧ m.shape f = .stack
  | immediate f _ => f ∈ m.forms ∧ f.mode = .immediate ∧ m.shape f = f.shape
  | direct f _ => f ∈ m.forms ∧ m.shape f = .byte
  | extended f _ => f ∈ m.forms ∧ m.shape f = .word
  | address _ => m.pattern = .general
  | pointer f _ | indexed f _ _ => f ∈ m.forms ∧ m.shape f = .index

/-- Where the form of an instruction comes from: the pattern of its mnemonic, or the mode that its operand
selects. -/
inductive ReadAs (m : Mnemonic) : Instruction → Prop
  | inherent {f : Form} (hm : m.pattern = .inherent f) : ReadAs m (.inherent f)
  | branch {f : Form} {name : String} {target : Token} (hm : m.pattern = .branch f) :
      ReadAs m (.branch f name target)
  | transfer {f : Form} {source target : TransferRegister} (hm : m.pattern = .transfer f) :
      ReadAs m (.transfer f source target)
  | stack {f : Form} {push : Bool} {own : Register} {rs : List StackRegister} (hm : m.pattern = .stack f push own) :
      ReadAs m (.stack f rs)
  | immediate {f : Form} {e : Expr} (hm : m.pattern = .general) (hf : m.form? .immediate = some f) :
      ReadAs m (.immediate f e)
  | direct {f : Form} {e : Expr} (hm : m.pattern = .general) (hf : m.form? .direct = some f) :
      ReadAs m (.direct f e)
  | extended {f : Form} {e : Expr} (hm : m.pattern = .general) (hf : m.form? .extended = some f) :
      ReadAs m (.extended f e)
  | address {e : Expr} (hm : m.pattern = .general) : ReadAs m (.address e)
  | pointer {f : Form} {e : Expr} (hm : m.pattern = .general) (hf : m.form? .indexed = some f) :
      ReadAs m (.pointer f e)
  | indexed {f : Form} {operand : IndexOperand} {indirect : Bool} (hm : m.pattern = .general)
      (hf : m.form? .indexed = some f) : ReadAs m (.indexed f operand indirect)

variable {m : Mnemonic} {mnemonic stop : Token} {ts rest : List Token} {i : Instruction} {f : Form}

/-- A form of a mnemonic that selects its form by the operand. -/
private theorem shape_of_general (h : m.pattern = .general) {mode : Mode} (hf : m.form? mode = some f) :
    f ∈ m.forms ∧ f.mode = mode ∧ m.shape f = f.shape := by
  obtain ⟨hmem, hmode⟩ := Mnemonic.form?_eq_some hf
  refine ⟨hmem, hmode, ?_⟩
  rw [Mnemonic.shape, h]

private theorem require_eq_ok {mode : Mode} {index : Nat} (h : require m mnemonic mode index = .ok f) :
    m.form? mode = some f := by
  unfold require at h
  split at h
  · next hf =>
    cases h
    exact hf
  · cases h

private theorem readMarked_eq_ok {mode : Mode} {build : Form → Expr → Instruction}
    (h : readMarked m mnemonic stop mode build ts = .ok (i, rest)) :
    ∃ f e, m.form? mode = some f ∧ i = build f e := by
  unfold readMarked at h
  split at h
  · cases h
  · next f hf =>
    cases he : Expr.read stop ts with
    | error e =>
      rw [he] at h
      cases h
    | ok p =>
      rw [he] at h
      cases h
      exact ⟨f, p.1, require_eq_ok hf, rfl⟩

private theorem readIndirect_eq_ok (h : readIndirect m mnemonic stop ts = .ok (i, rest)) :
    ∃ f operand, m.form? .indexed = some f ∧ i = indirect f operand := by
  unfold readIndirect at h
  split at h
  · cases h
  · next operand us _ =>
    split at h
    · cases h
    · split at h
      · cases h
      · next f hf =>
        cases h
        exact ⟨f, operand, require_eq_ok hf, rfl⟩

private theorem readUnmarked_eq_ok (h : readUnmarked m mnemonic stop ts = .ok (i, rest)) :
    (∃ e, i = .address e) ∨ ∃ f operand, m.form? .indexed = some f ∧ i = .indexed f operand false := by
  unfold readUnmarked at h
  split at h
  · cases h
  · next e us _ =>
    cases h
    exact .inl ⟨e, rfl⟩
  · next operand us _ =>
    split at h
    · cases h
    · next f hf =>
      cases h
      exact .inr ⟨f, operand, require_eq_ok hf, rfl⟩

private theorem readAs_of_readGeneral (hm : m.pattern = .general)
    (h : readGeneral m mnemonic stop ts = .ok (i, rest)) : i.ReadAs m := by
  unfold readGeneral at h
  split at h
  · cases h
  · split at h
    · obtain ⟨f, e, hf, rfl⟩ := readMarked_eq_ok h
      exact .immediate hm hf
    · obtain ⟨f, e, hf, rfl⟩ := readMarked_eq_ok h
      exact .direct hm hf
    · obtain ⟨f, e, hf, rfl⟩ := readMarked_eq_ok h
      exact .extended hm hf
    · obtain ⟨f, operand, hf, rfl⟩ := readIndirect_eq_ok h
      cases operand with
      | address e => exact .pointer hm hf
      | index operand => exact .indexed hm hf
    · rcases readUnmarked_eq_ok h with ⟨e, rfl⟩ | ⟨f, operand, hf, rfl⟩
      · exact .address hm
      · exact .indexed hm hf

theorem readAs_of_read (h : read m mnemonic stop ts = .ok (i, rest)) : i.ReadAs m := by
  unfold read at h
  cases hm : m.pattern with
  | inherent f =>
    simp only [hm] at h
    split at h
    · cases h
      exact .inherent hm
    · cases h
  | branch f =>
    simp only [hm] at h
    unfold readBranch at h
    split at h
    · cases h
    · split at h
      · cases h
        exact .branch hm
      · cases h
  | transfer f =>
    simp only [hm] at h
    unfold readTransfer at h
    split at h
    · cases h
    · split at h
      · cases h
      · next source us _ us' _ =>
        cases hr : readTransferRegister m stop us' with
        | error e =>
          rw [hr] at h
          cases h
        | ok p =>
          rw [hr] at h
          cases h
          exact .transfer hm
  | stack f push own =>
    simp only [hm] at h
    cases hr : readStacked m push own stop [] ts with
    | error e =>
      rw [hr] at h
      cases h
    | ok p =>
      rw [hr] at h
      cases h
      exact .stack hm
  | general =>
    simp only [hm] at h
    exact readAs_of_readGeneral hm h

private theorem ReadAs.suits (h : i.ReadAs m) : i.Suits m := by
  have hform := m.pattern_form
  cases h with
  | inherent hm =>
    simp only [hm] at hform
    refine ⟨hform.1, ?_⟩
    simp only [Mnemonic.shape, hm, Form.shape, hform.2]
  | branch hm =>
    simp only [hm] at hform
    refine ⟨hform.1, hform.2, ?_⟩
    simp only [Mnemonic.shape, hm]
  | transfer hm =>
    simp only [hm] at hform
    refine ⟨hform, ?_⟩
    simp only [Mnemonic.shape, hm]
  | stack hm =>
    simp only [hm] at hform
    refine ⟨hform, ?_⟩
    simp only [Mnemonic.shape, hm]
  | immediate hm hf => exact shape_of_general hm hf
  | address hm => exact hm
  | direct hm hf =>
    obtain ⟨hmem, hmode, hshape⟩ := shape_of_general hm hf
    exact ⟨hmem, by rw [hshape, Form.shape, hmode]⟩
  | extended hm hf =>
    obtain ⟨hmem, hmode, hshape⟩ := shape_of_general hm hf
    exact ⟨hmem, by rw [hshape, Form.shape, hmode]⟩
  | pointer hm hf =>
    obtain ⟨hmem, hmode, hshape⟩ := shape_of_general hm hf
    exact ⟨hmem, by rw [hshape, Form.shape, hmode]⟩
  | indexed hm hf =>
    obtain ⟨hmem, hmode, hshape⟩ := shape_of_general hm hf
    exact ⟨hmem, by rw [hshape, Form.shape, hmode]⟩

/-- An instruction that is read for a mnemonic has a form of the mnemonic. -/
theorem suits_of_read (h : read m mnemonic stop ts = .ok (i, rest)) : i.Suits m :=
  (readAs_of_read h).suits

/-! ### Instructions as they are stored -/

variable {s : State} {key : Int} {ws : List (Int × Int)} {mi : Machine.Instruction}

/-- An encoded instruction has a form of its mnemonic and an operand of the shape that belongs to it. -/
theorem Encodes.shape (h : i.Encodes m key s ws mi) (hi : i.Suits m) :
    mi.form ∈ m.forms ∧ mi.operand.shape = m.shape mi.form := by
  cases h with
  | inherent => exact ⟨hi.1, hi.2.symm⟩
  | branch => exact ⟨hi.1, (Form.shape_displacement hi.2.1 _).trans hi.2.2.symm⟩
  | transfer => exact ⟨hi.1, hi.2.symm⟩
  | stack => exact ⟨hi.1, hi.2.symm⟩
  | immediate => exact ⟨hi.1, (Form.shape_immediate hi.2.1 _).trans hi.2.2.symm⟩
  | direct => exact ⟨hi.1, hi.2.symm⟩
  | extended => exact ⟨hi.1, hi.2.symm⟩
  | shortAddress _ _ hf =>
    obtain ⟨hmem, hmode, hshape⟩ := shape_of_general hi hf
    exact ⟨hmem, by rw [hshape, Form.shape, hmode]; rfl⟩
  | longAddress _ _ hf =>
    obtain ⟨hmem, hmode, hshape⟩ := shape_of_general hi hf
    exact ⟨hmem, by rw [hshape, Form.shape, hmode]; rfl⟩
  | pointer => exact ⟨hi.1, hi.2.symm⟩
  | noOffset => exact ⟨hi.1, hi.2.symm⟩
  | accumulator => exact ⟨hi.1, hi.2.symm⟩
  | stepping => exact ⟨hi.1, hi.2.symm⟩
  | offset => exact ⟨hi.1, hi.2.symm⟩
  | counter => exact ⟨hi.1, hi.2.symm⟩
  | target => exact ⟨hi.1, hi.2.symm⟩

/-- The decoder reads back every encoded instruction. -/
theorem Encodes.decode (h : i.Encodes m key s ws mi) (hi : i.Suits m) (rest : List UInt8) :
    Machine.decode (mi.bytes ++ rest) = some (⟨mi.form, mi.operand.reduced⟩, rest) := by
  obtain ⟨hmem, hshape⟩ := h.shape hi
  exact Machine.decode_bytes m hmem hshape rest

/-- The instructions that an instruction of the second pass can be stored as, as they are read back: values
modulo the size that the form has for them, the registers of a push or pull as a set, offsets as they are, and
the distance to a target as a signed word. -/
inductive StoredAs (m : Mnemonic) (s : State) : Instruction → Machine.Instruction → Prop
  | inherent (f : Form) : StoredAs m s (.inherent f) ⟨f, .none⟩
  | shortBranch {f : Form} {name : String} {target : Token} {v : Int} (hf : f.operandSize ≠ 2)
      (h : s.symbols.resolve name = some v) :
      StoredAs m s (.branch f name target) ⟨f, .byte ((v - (s.pc + f.size)) % 0x100)⟩
  | longBranch {f : Form} {name : String} {target : Token} {v : Int} (hf : f.operandSize = 2)
      (h : s.symbols.resolve name = some v) :
      StoredAs m s (.branch f name target) ⟨f, .word ((v - (s.pc + f.size)) % 0x10000)⟩
  | transfer (f : Form) (source target : TransferRegister) :
      StoredAs m s (.transfer f source target) ⟨f, .transfer source target⟩
  | stack {f : Form} {rs rs' : List StackRegister} (hnd : rs'.Nodup)
      (h : ∀ r, r ∈ rs' ↔ r ∈ rs.flatMap StackRegister.parts) : StoredAs m s (.stack f rs) ⟨f, .stack rs'⟩
  | byteImmediate {f : Form} {e : Expr} (hf : f.operandSize = 1) :
      StoredAs m s (.immediate f e) ⟨f, .byte ((s.value e).total % 0x100)⟩
  | wordImmediate {f : Form} {e : Expr} (hf : f.operandSize ≠ 1) :
      StoredAs m s (.immediate f e) ⟨f, .word ((s.value e).total % 0x10000)⟩
  | direct (f : Form) (e : Expr) : StoredAs m s (.direct f e) ⟨f, .byte ((s.value e).total % 0x100)⟩
  | extended (f : Form) (e : Expr) : StoredAs m s (.extended f e) ⟨f, .word ((s.value e).total % 0x10000)⟩
  | shortAddress {f : Form} {e : Expr} (hf : m.form? .direct = some f)
      (h : s.isShort (s.value e).total = true) :
      StoredAs m s (.address e) ⟨f, .byte ((s.value e).total % 0x100)⟩
  | longAddress {f : Form} {e : Expr} (hf : m.form? .extended = some f) :
      StoredAs m s (.address e) ⟨f, .word ((s.value e).total % 0x10000)⟩
  | pointer (f : Form) (e : Expr) :
      StoredAs m s (.pointer f e) ⟨f, .index (.pointer ((s.value e).total % 0x10000))⟩
  | noOffset (f : Form) (r : IndexRegister) (indirect : Bool) :
      StoredAs m s (.indexed f (.noOffset r) indirect) ⟨f, .index (.noOffset r indirect)⟩
  | accumulator (f : Form) (acc : Accumulator) (r : IndexRegister) (indirect : Bool) :
      StoredAs m s (.indexed f (.accumulator acc r) indirect) ⟨f, .index (.accumulator acc r indirect)⟩
  | stepping (f : Form) (step : Stepping) (r : IndexRegister) (indirect : Bool) :
      StoredAs m s (.indexed f (.stepping step r) indirect) ⟨f, .index (.stepping step r indirect)⟩
  | packed (f : Form) (e : Expr) (r : IndexRegister) :
      StoredAs m s (.indexed f (.offset e r) false) ⟨f, .index (.packed r (s.value e).total)⟩
  | byteOffset (f : Form) (e : Expr) (r : IndexRegister) (indirect : Bool) :
      StoredAs m s (.indexed f (.offset e r) indirect) ⟨f, .index (.byteOffset r indirect (s.value e).total)⟩
  | wordOffset (f : Form) (e : Expr) (r : IndexRegister) (indirect : Bool) :
      StoredAs m s (.indexed f (.offset e r) indirect) ⟨f, .index (.wordOffset r indirect (s.value e).total)⟩
  | byteCounter (f : Form) (e : Expr) (indirect : Bool) :
      StoredAs m s (.indexed f (.counter e) indirect) ⟨f, .index (.byteCounter indirect (s.value e).total)⟩
  | wordCounter (f : Form) (e : Expr) (indirect : Bool) :
      StoredAs m s (.indexed f (.counter e) indirect) ⟨f, .index (.wordCounter indirect (s.value e).total)⟩
  | byteTarget (f : Form) (e : Expr) (indirect : Bool) :
      StoredAs m s (.indexed f (.target e) indirect)
        ⟨f, .index (.byteCounter indirect (((s.value e).total - (s.pc + f.size + 1)).bmod 0x10000))⟩
  | wordTarget (f : Form) (e : Expr) (indirect : Bool) :
      StoredAs m s (.indexed f (.target e) indirect)
        ⟨f, .index (.wordCounter indirect (((s.value e).total - (s.pc + f.size + 2)).bmod 0x10000))⟩

/-- A width is enough for the operand of an instruction. -/
def Enough (s : State) (w : Int) : Instruction → Prop
  | address e => w = 1 → s.isShort (s.value e).total = true
  | indexed _ (.offset e _) indirect =>
    (w = 0 → indirect = false ∧ -16 ≤ (s.value e).total ∧ (s.value e).total ≤ 15) ∧
      (w = 1 → -128 ≤ (s.value e).total ∧ (s.value e).total ≤ 127)
  | indexed _ (.counter e) _ => w = 1 → -128 ≤ (s.value e).total ∧ (s.value e).total ≤ 127
  | indexed f (.target e) _ =>
    w ≠ 0 ∧ (w = 1 → -128 ≤ ((s.value e).total - (s.pc + f.size + 1)).bmod 0x10000 ∧
      ((s.value e).total - (s.pc + f.size + 1)).bmod 0x10000 ≤ 127)
  | _ => True

theorem enough_of_none (ho : i.ownWidth? m s = none) (w : Int) : i.Enough s w := by
  cases i with
  | address => cases ho
  | indexed f o indirect =>
    cases o with
    | offset => cases ho
    | counter => cases ho
    | target => cases ho
    | _ => trivial
  | _ => trivial

private theorem range_of_offsetWidth_le_zero {v : Value} {indirect : Bool} (h : v.offsetWidth indirect ≤ 0) :
    indirect = false ∧ -16 ≤ v.total ∧ v.total ≤ 15 := by
  unfold Value.offsetWidth at h
  split at h
  · next hv =>
    simp only [Bool.and_eq_true, Bool.not_eq_eq_eq_not, Bool.not_true, decide_eq_true_eq] at hv
    exact ⟨hv.2, hv.1.1.2, hv.1.2⟩
  · split at h <;> omega

private theorem range_of_offsetWidth_le_one {v : Value} {indirect : Bool} (h : v.offsetWidth indirect ≤ 1) :
    -128 ≤ v.total ∧ v.total ≤ 127 := by
  unfold Value.offsetWidth at h
  split at h
  · next hv =>
    simp only [Bool.and_eq_true, decide_eq_true_eq] at hv
    omega
  · split at h
    · next hv =>
      simp only [Bool.and_eq_true, decide_eq_true_eq] at hv
      exact ⟨hv.1.2, hv.2⟩
    · omega

private theorem range_of_counterWidth_le_one {v : Value} (h : v.counterWidth ≤ 1) :
    -128 ≤ v.total ∧ v.total ≤ 127 := by
  unfold Value.counterWidth at h
  split at h
  · next hv =>
    simp only [Bool.and_eq_true, decide_eq_true_eq] at hv
    exact ⟨hv.1.2, hv.2⟩
  · omega

private theorem range_of_targetWidth_le_one {v : Value} {after : Int} (h : v.targetWidth after ≤ 1) :
    -128 ≤ v.total - (after + 1) ∧ v.total - (after + 1) ≤ 127 := by
  unfold Value.targetWidth at h
  split at h
  · next hv =>
    simp only [Bool.and_eq_true, decide_eq_true_eq] at hv
    exact ⟨hv.1.2, hv.2⟩
  · omega

private theorem one_le_targetWidth (v : Value) (after : Int) : 1 ≤ v.targetWidth after := by
  unfold Value.targetWidth
  split <;> decide

/-- A width is enough if it is not narrower than the one that the operand asks for. -/
theorem enough_of_own_le {own w : Int} (ho : i.ownWidth? m s = some own) (hle : own ≤ w) : i.Enough s w := by
  unfold ownWidth? at ho
  split at ho
  · next e =>
    cases ho
    rintro rfl
    unfold addressWidth at hle
    split at hle
    · next h =>
      simp only [Bool.and_eq_true] at h
      exact h.2
    · omega
  · cases ho
    constructor
    · rintro rfl
      exact range_of_offsetWidth_le_zero hle
    · rintro rfl
      exact range_of_offsetWidth_le_one hle
  · cases ho
    rintro rfl
    exact range_of_counterWidth_le_one hle
  · next f e indirect =>
    cases ho
    have hone := one_le_targetWidth (s.value e) (s.pc + f.size)
    refine ⟨by omega, ?_⟩
    rintro rfl
    have hrange := range_of_targetWidth_le_one hle
    rwa [(Machine.bmod_eq_self_iff _ _ (by decide)).2 (by omega)]
  · cases ho

/-- A number is stored as such in a field of an operand exactly if it lies within half the size of the field. -/
private theorem storedAs_field_iff {f : Form} {o : IndexOperand} {indirect : Bool} {n : Int}
    {field : Int → Machine.Index} {fits : Prop}
    (hfield : ∀ k, StoredAs m s (.indexed f o indirect) ⟨f, .index (field k)⟩ ↔ fits ∧ k = n) (size : Nat)
    (hsize : 0 < size) :
    StoredAs m s (.indexed f o indirect) ⟨f, .index (field (n.bmod size))⟩ ↔
      fits ∧ -(size / 2 : Int) ≤ n ∧ n < (size + 1) / 2 := by
  rw [hfield, Machine.bmod_eq_self_iff n size hsize]

private theorem storedAs_offset_iff {f : Form} {e : Expr} {r : IndexRegister} {indirect : Bool} {n w : Int}
    (hn : n = (s.value e).total) (hb : -32768 ≤ n ∧ n ≤ 32767) (h0 : 0 ≤ w) (h2 : w ≤ 2) :
    StoredAs m s (.indexed f (.offset e r) indirect)
        ⟨f, (Machine.Operand.index (.ofOffset w r indirect n)).reduced⟩ ↔
      Enough s w (.indexed f (.offset e r) indirect) := by
  subst hn
  obtain rfl | rfl | rfl : w = 0 ∨ w = 1 ∨ w = 2 := by omega
  · have hpacked : ∀ k, StoredAs m s (.indexed f (.offset e r) indirect) ⟨f, .index (.packed r k)⟩ ↔
        indirect = false ∧ k = (s.value e).total := by
      intro k
      constructor
      · rintro ⟨⟩
        exact ⟨rfl, rfl⟩
      · rintro ⟨rfl, rfl⟩
        exact .packed f e r
    refine (storedAs_field_iff hpacked 0x20 (by decide)).trans ⟨fun ⟨hi, h⟩ => ⟨fun _ => ⟨hi, ?_⟩, ?_⟩, fun h => ?_⟩
    · omega
    · omega
    · obtain ⟨hi, h⟩ := h.1 rfl
      exact ⟨hi, by omega⟩
  · have hbyte : ∀ k, StoredAs m s (.indexed f (.offset e r) indirect) ⟨f, .index (.byteOffset r indirect k)⟩ ↔
        True ∧ k = (s.value e).total := by
      intro k
      constructor
      · rintro ⟨⟩
        exact ⟨trivial, rfl⟩
      · rintro ⟨-, rfl⟩
        exact .byteOffset f e r indirect
    refine (storedAs_field_iff hbyte 0x100 (by decide)).trans ⟨fun h => ⟨by omega, fun _ => by omega⟩, fun h => ?_⟩
    have := h.2 rfl
    exact ⟨trivial, by omega⟩
  · refine ⟨fun _ => ⟨by omega, by omega⟩, fun _ => ?_⟩
    show StoredAs m s _ ⟨f, .index (.wordOffset r indirect ((s.value e).total.bmod 0x10000))⟩
    rw [(Machine.bmod_eq_self_iff _ _ (by decide)).2 (by omega)]
    exact .wordOffset f e r indirect

private theorem storedAs_counter_iff {f : Form} {e : Expr} {indirect : Bool} {n w : Int}
    (hn : n = (s.value e).total) (hb : -32768 ≤ n ∧ n ≤ 32767) :
    StoredAs m s (.indexed f (.counter e) indirect) ⟨f, (Machine.Operand.index (.ofCounter w indirect n)).reduced⟩ ↔
      Enough s w (.indexed f (.counter e) indirect) := by
  subst hn
  by_cases h1 : w = 1
  · subst h1
    have hbyte : ∀ k, StoredAs m s (.indexed f (.counter e) indirect) ⟨f, .index (.byteCounter indirect k)⟩ ↔
        True ∧ k = (s.value e).total := by
      intro k
      constructor
      · rintro ⟨⟩
        exact ⟨trivial, rfl⟩
      · rintro ⟨-, rfl⟩
        exact .byteCounter f e indirect
    refine (storedAs_field_iff hbyte 0x100 (by decide)).trans ⟨fun h _ => by omega, fun h => ?_⟩
    have := h rfl
    exact ⟨trivial, by omega⟩
  · refine ⟨fun _ h' => absurd h' h1, fun _ => ?_⟩
    rw [Machine.Index.ofCounter, if_neg h1]
    show StoredAs m s _ ⟨f, .index (.wordCounter indirect ((s.value e).total.bmod 0x10000))⟩
    rw [(Machine.bmod_eq_self_iff _ _ (by decide)).2 (by omega)]
    exact .wordCounter f e indirect

/-- A distance is read back from a byte as it is from a word exactly if it is short as a signed word. -/
private theorem bmod_byte_eq_bmod_word_iff (d : Int) :
    d.bmod 0x100 = d.bmod 0x10000 ↔ -128 ≤ d.bmod 0x10000 ∧ d.bmod 0x10000 ≤ 127 := by
  have hword := (Int.bmod_eq_iff (a := d) (b := 0x10000) (c := d.bmod 0x10000) (by decide)).1 rfl
  rw [Int.bmod_eq_iff (by decide)]
  constructor
  · rintro ⟨hlow, hhigh, -⟩
    omega
  · rintro ⟨hlow, hhigh⟩
    refine ⟨by omega, by omega, ?_⟩
    omega

private theorem storedAs_byteTarget_iff {f : Form} {e : Expr} {indirect : Bool} {d : Int}
    (hd : d = (s.value e).total - (s.pc + f.size + 1)) :
    StoredAs m s (.indexed f (.target e) indirect) ⟨f, .index (.byteCounter indirect (d.bmod 0x100))⟩ ↔
      -128 ≤ d.bmod 0x10000 ∧ d.bmod 0x10000 ≤ 127 := by
  rw [← bmod_byte_eq_bmod_word_iff, hd]
  constructor
  · generalize hk : ((s.value e).total - (s.pc + f.size + 1)).bmod 0x100 = k
    intro h
    cases h with
    | byteTarget => rfl
  · intro h
    rw [h]
    exact .byteTarget f e indirect

private theorem storedAs_wordTarget_iff {f : Form} {e : Expr} {indirect : Bool} {w : Int} (hw : w = 0 ∨ w = 2) :
    StoredAs m s (.indexed f (.target e) indirect)
        ⟨f, .index (.wordCounter indirect (((s.value e).total - (s.pc + f.size + w)).bmod 0x10000))⟩ ↔ w = 2 := by
  constructor
  · generalize hk : ((s.value e).total - (s.pc + f.size + w)).bmod 0x10000 = k
    intro h
    cases h with
    | wordTarget =>
      -- In a word form, a width other than 2 measures the distance from an address that the word does not end at.
      have hsub := (Int.bmod_eq_iff (by decide)).1 hk
      have hself := (Int.bmod_eq_iff (a := (s.value e).total - (s.pc + f.size + 2)) (b := 0x10000)
        (by decide)).1 rfl
      omega
  · rintro rfl
    exact .wordTarget f e indirect

private theorem storedAs_target_iff {f : Form} {e : Expr} {indirect : Bool} {w : Int} (h0 : 0 ≤ w) (h2 : w ≤ 2) :
    StoredAs m s (.indexed f (.target e) indirect)
        ⟨f, (Machine.Operand.index
          (.ofCounter w indirect ((s.value e).total - (s.pc + f.size + w)))).reduced⟩ ↔
      Enough s w (.indexed f (.target e) indirect) := by
  by_cases h1 : w = 1
  · subst h1
    refine (storedAs_byteTarget_iff rfl).trans ?_
    exact ⟨fun h => ⟨by decide, fun _ => h⟩, fun h => h.2 rfl⟩
  · rw [Machine.Index.ofCounter, if_neg h1]
    refine (storedAs_wordTarget_iff (by omega)).trans ?_
    exact ⟨fun h => ⟨by omega, fun h' => absurd h' h1⟩, fun h => by have := h.1; omega⟩

/-- An encoded instruction is stored as such exactly if the width in use is enough for its operand. -/
theorem Encodes.storedAs_iff (h : i.Encodes m key s ws mi) (hp : s.pass = .second) {w : Int}
    (hw : ∀ own, i.ownWidth? m s = some own → s.width key own = w) (h0 : 0 ≤ w) (h2 : w ≤ 2) :
    i.StoredAs m s ⟨mi.form, mi.operand.reduced⟩ ↔ i.Enough s w := by
  cases h with
  | inherent f => exact ⟨fun _ => trivial, fun _ => .inherent f⟩
  | @branch f name target d hd =>
    refine ⟨fun _ => trivial, fun _ => ?_⟩
    cases hd with
    | unknown _ hp' => exact absurd hp hp'
    | known hv =>
      unfold Form.displacement
      split
      · next hf => exact .longBranch hf hv
      · next hf => exact .shortBranch hf hv
  | transfer f source target => exact ⟨fun _ => trivial, fun _ => .transfer f source target⟩
  | stack f rs =>
    refine ⟨fun _ => trivial, fun _ => .stack ?_ fun r => ?_⟩
    · exact List.Pairwise.filter _ (by decide)
    · have hpart : r ∈ rs.flatMap StackRegister.parts → r ∈ StackRegister.single := by
        rw [List.mem_flatMap]
        rintro ⟨r', -, hr⟩
        revert hr
        cases r' <;> cases r <;> decide
      simpa using hpart
  | @immediate f e n hn =>
    refine ⟨fun _ => trivial, fun _ => ?_⟩
    rw [hn.total]
    unfold Form.immediate
    split
    · next hf => exact .byteImmediate hf
    · next hf => exact .wordImmediate hf
  | direct => exact ⟨fun _ => trivial, fun _ => .direct _ _⟩
  | extended hn =>
    rw [hn.total]
    exact ⟨fun _ => trivial, fun _ => .extended _ _⟩
  | pointer hn =>
    rw [hn.total]
    exact ⟨fun _ => trivial, fun _ => .pointer _ _⟩
  | noOffset f r indirect => exact ⟨fun _ => trivial, fun _ => .noOffset f r indirect⟩
  | accumulator f acc r indirect => exact ⟨fun _ => trivial, fun _ => .accumulator f acc r indirect⟩
  | stepping f step r indirect => exact ⟨fun _ => trivial, fun _ => .stepping f step r indirect⟩
  -- The remaining operands have a choice of widths, and `w` is the one in use.
  | shortAddress _ hone hf =>
    constructor
    · intro h _
      cases h with
      | shortAddress _ hshort => exact hshort
    · intro h
      have hw1 : w = 1 := (hw _ rfl).symm.trans hone
      exact .shortAddress hf (h hw1)
  | longAddress hn hne hf =>
    rw [hn.total]
    have hw1 : w ≠ 1 := fun h => hne ((hw _ rfl).trans h)
    exact ⟨fun _ h => absurd h hw1, fun _ => .longAddress hf⟩
  | offset hn =>
    rw [hw _ rfl]
    exact storedAs_offset_iff hn.total (Bounds.contains_iff.1 (hn.contains (hn.admits (.inr hp)))) h0 h2
  | counter hn =>
    rw [hw _ rfl]
    exact storedAs_counter_iff hn.total (Bounds.contains_iff.1 (hn.contains (hn.admits (.inr hp))))
  | target _ hw' =>
    rw [hw _ rfl] at hw'
    subst hw'
    exact storedAs_target_iff h0 h2

end Instruction

/-! ### Instructions of the second pass -/

open Assemble

/-- An instruction by itself is read and carried out. -/
theorem Part.instruct_of_run {l : Line} {m : Mnemonic} {mnemonic : Token} {ts : List Token} {s t : State}
    {next : Nat} (hl : l.body = mnemonic :: ts) (hm : mnemonic.lexeme = .opcode m)
    (h : Part.run .instruction l s = .ok next t) :
    ∃ i us, Instruction.read m mnemonic l.stop ts = .ok (i, us) ∧
      Action.Does s (.instruct m mnemonic i (nextToken l.stop us).index) t := by
  have hread : Part.read? .instruction s.pass l = some (Script.readInstruction m mnemonic l.stop ts) := by
    simp only [Part.read?, hl, hm]
  rw [Part.run, get_bind] at h
  simp only [hread, Script.run, Script.readInstruction] at h
  obtain ⟨_, u, ha, he⟩ := bind_eq_ok.1 h
  cases hr : Instruction.read m mnemonic l.stop ts with
  | error f =>
    rw [hr] at he
    exact absurd he fail_ne_ok
  | ok p =>
    rw [hr] at ha he
    obtain ⟨-, rfl⟩ := pure_eq_ok.1 he
    cases Action.forM_run_eq_ok.1 ha with
    | cons hd hn =>
      cases hn
      exact ⟨p.1, p.2, rfl, hd⟩

/-- In the second pass the width in use for an operand is between the one that it asks for and two. -/
private theorem State.width_mem {s : State} {key own : Int} (h1 : own ≤ 2)
    (h : ∀ w, s.widths.lookup key = some w → own ≤ w ∧ w ≤ 2) : own ≤ s.width key own ∧ s.width key own ≤ 2 := by
  unfold State.width State.choose
  split
  · next w _ hw => exact h w hw
  · exact ⟨Int.le_refl own, h1⟩

theorem Instruction.ownWidth?_mem {m : Mnemonic} {s : State} {i : Instruction} {own : Int}
    (h : i.ownWidth? m s = some own) : 0 ≤ own ∧ own ≤ 2 := by
  unfold ownWidth? at h
  split at h
  · cases h
    unfold addressWidth
    split <;> decide
  · cases h
    unfold Value.offsetWidth
    split
    · decide
    · split <;> decide
  · cases h
    unfold Value.counterWidth
    split <;> decide
  · cases h
    unfold Value.targetWidth
    split <;> decide
  · cases h

/-- The bytes of an instruction that is carried out in the second pass can be read back, whatever follows them:
to a form of the mnemonic and to the operand, if a width recorded for it is not narrower than the one it asks
for. -/
theorem decode_emitted {l : Line} {m : Mnemonic} {mnemonic : Token} {ts : List Token} {s t : State} {next : Nat}
    (hl : l.body = mnemonic :: ts) (hm : mnemonic.lexeme = .opcode m) (hp : s.pass = .second)
    (h : Part.run .instruction l s = .ok next t) :
    ∃ i us, Instruction.read m mnemonic l.stop ts = .ok (i, us) ∧
      ((∀ w own, s.widths.lookup (mnemonic.index : Int) = some w → i.ownWidth? m s = some own → own ≤ w ∧ w ≤ 2) →
        ∃ bytes mi, t.output.toList = s.output.toList ++ bytes ∧ mi.form ∈ m.forms ∧ i.StoredAs m s mi ∧
          ∀ rest, Machine.decode (bytes ++ rest) = some (mi, rest)) := by
  obtain ⟨i, us, hr, hd⟩ := Part.instruct_of_run hl hm h
  refine ⟨i, us, hr, fun hw => ?_⟩
  have hi := Instruction.suits_of_read hr
  cases hd with
  | @instruct _ _ _ _ ws mi he =>
    refine ⟨mi.bytes, ⟨mi.form, mi.operand.reduced⟩, ?_, (he.shape hi).1, ?_, he.decode hi⟩
    · simp [State.emit, hp]
    · rcases ho : i.ownWidth? m s with _ | own
      · refine (he.storedAs_iff hp (w := 0) ?_ (by decide) (by decide)).2 (Instruction.enough_of_none ho 0)
        simp [ho]
      · obtain ⟨h0, h2⟩ := Instruction.ownWidth?_mem ho
        obtain ⟨hle, hle2⟩ := State.width_mem h2 fun w hw' => hw w own hw' ho
        refine (he.storedAs_iff hp ?_ (by omega) hle2).2 (Instruction.enough_of_own_le ho hle)
        intro own' ho'
        rw [ho] at ho'
        cases ho'
        rfl

/-- The line `leay -20,x`. -/
private def indexedLine : Line :=
  ⟨[⟨.opcode .leay, 0, "main.asm", 1, 1⟩, ⟨.dec, 1, "main.asm", 1, 6⟩, ⟨.integer 20, 2, "main.asm", 1, 7⟩,
    ⟨.comma, 3, "main.asm", 1, 9⟩, ⟨.register .x, 4, "main.asm", 1, 10⟩], ⟨.eof, 5, "main.asm", 1, 11⟩⟩

theorem decode_emitted_wide :
    ∃ t i us, Part.run .instruction indexedLine { base := 0, pass := .second, widths := [(0, 2)] } = .ok 5 t ∧
      Instruction.read .leay ⟨.opcode .leay, 0, "main.asm", 1, 1⟩ indexedLine.stop indexedLine.body.tail =
        .ok (i, us) ∧
      i.ownWidth? .leay { base := 0, pass := .second, widths := [(0, 2)] } = some 1 ∧
      ∃ bytes mi, t.output.toList = bytes ∧ mi.form ∈ Mnemonic.forms .leay ∧
        i.StoredAs .leay { base := 0, pass := .second, widths := [(0, 2)] } mi ∧
        ∀ rest, Machine.decode (bytes ++ rest) = some (mi, rest) := by
  obtain ⟨i, us, hi, h⟩ := decode_emitted (l := indexedLine)
    (s := { base := 0, pass := .second, widths := [(0, 2)] }) rfl rfl rfl rfl
  cases hi
  obtain ⟨bytes, mi, hout, hform, hstored, hdecode⟩ := h (by
    intro w own hw ho
    cases hw
    cases ho
    decide)
  exact ⟨_, _, _, rfl, rfl, rfl, bytes, mi, hout, hform, hstored, hdecode⟩

end Mc6809
