import Mc6809.Proofs.Assembly.Outcome

/-!
# How instructions are encoded

The rules by which an instruction becomes a machine instruction (`Instruction.Encodes`), one for each kind of
operand and, for an address, one for each of its forms.  Assembling an instruction succeeds exactly if a rule
applies, and then emits the bytes of the machine instruction and nothing else (`Instruction.assemble_eq_ok`).
-/

namespace Mc6809

namespace State

variable (s : State)

/-- The width that is used for an operand for which `own` is proposed. -/
def width (key own : Int) : Int :=
  (s.choose key own).1

/-- The widths that are recorded after that choice. -/
def widthsWith (key own : Int) : List (Int × Int) :=
  (s.choose key own).2.widths

theorem choose_snd (key own : Int) : (s.choose key own).2 = { s with widths := s.widthsWith key own } := by
  unfold widthsWith choose
  split <;> rfl

theorem emit_emit (a b : List UInt8) : (s.emit a).emit b = s.emit (a ++ b) := by
  unfold emit
  by_cases h : s.pass = .second
  · have ho : s.output ++ a ++ b = s.output ++ (a ++ b) := Array.ext' (by simp)
    simp [h, ho, Int.add_assoc]
  · simp [h, Int.add_assoc]

end State

/-- The distance that a branch has to bridge. A target that the first pass does not know yet counts as near. -/
inductive State.Distance (s : State) (f : Form) (name : String) : Int → Prop
  | known {v : Int} (h : s.symbols.resolve name = some v)
      (hr : Instruction.reaches (f.operandSize = 2) (v - (s.pc + f.size)) = true) :
      Distance s f name (v - (s.pc + f.size))
  | unknown (h : s.symbols.resolve name = none) (hp : s.pass ≠ .second) : Distance s f name 0

namespace Form

/-- The operand of a branch over a distance. -/
def displacement (f : Form) (d : Int) : Machine.Operand :=
  if f.operandSize = 2 then .word d else .byte d

/-- An immediate operand, in the size that the form has for it. -/
def immediate (f : Form) (n : Int) : Machine.Operand :=
  if f.operandSize = 1 then .byte n else .word n

/-- The values that an immediate operand can have. -/
def immediateBounds (f : Form) : Bounds :=
  if f.operandSize = 1 then .immediateByte else .immediateWord

end Form

namespace Instruction

/-- The width that a mnemonic with an address proposes for it. -/
def addressWidth (m : Mnemonic) (s : State) (e : Expr) : Int :=
  if (s.value e).settled && (m.form? .direct).isSome && s.isShort (s.value e).total then 1 else 2

/-- The width that an instruction proposes, if its operand can be stored in several ones. -/
def ownWidth? (m : Mnemonic) (s : State) : Instruction → Option Int
  | address e => some (addressWidth m s e)
  | indexed _ (.offset e _) indirect => some ((s.value e).offsetWidth indirect)
  | indexed _ (.counter e) _ => some (s.value e).counterWidth
  | indexed f (.target e) _ => some ((s.value e).targetWidth (s.pc + f.size))
  | _ => none

/-- The machine instruction that an instruction with a mnemonic becomes in a state, and the widths recorded by
then. The mnemonic is the token with the number `key`. -/
inductive Encodes (m : Mnemonic) (key : Int) (s : State) :
    Instruction → List (Int × Int) → Machine.Instruction → Prop
  | inherent (f : Form) : Encodes m key s (.inherent f) s.widths ⟨f, .none⟩
  | branch {f : Form} {name : String} {target : Token} {d : Int} (h : s.Distance f name d) :
      Encodes m key s (.branch f name target) s.widths ⟨f, f.displacement d⟩
  | transfer (f : Form) (source target : TransferRegister) :
      Encodes m key s (.transfer f source target) s.widths ⟨f, .transfer source target⟩
  | stack (f : Form) (rs : List StackRegister) : Encodes m key s (.stack f rs) s.widths ⟨f, .stack rs⟩
  | immediate {f : Form} {e : Expr} {n : Int} (h : s.Bounded false f.immediateBounds e n) :
      Encodes m key s (.immediate f e) s.widths ⟨f, f.immediate n⟩
  | direct {f : Form} {e : Expr} (h : s.Admits false e)
      (hb : (s.value e).settled = true →
        (-128 ≤ (s.value e).total ∧ (s.value e).total ≤ 255) ∨ s.onPage (s.value e).total = true) :
      Encodes m key s (.direct f e) s.widths ⟨f, .byte (s.value e).total⟩
  | extended {f : Form} {e : Expr} {n : Int} (h : s.Bounded false .address e n) :
      Encodes m key s (.extended f e) s.widths ⟨f, .word n⟩
  | shortAddress {f : Form} {e : Expr} (h : s.Admits false e) (hw : s.width key (addressWidth m s e) = 1)
      (hf : m.form? .direct = some f) :
      Encodes m key s (.address e) (s.widthsWith key (addressWidth m s e)) ⟨f, .byte (s.value e).total⟩
  | longAddress {f : Form} {e : Expr} {n : Int} (h : s.Bounded false .address e n)
      (hw : s.width key (addressWidth m s e) ≠ 1) (hf : m.form? .extended = some f) :
      Encodes m key s (.address e) (s.widthsWith key (addressWidth m s e)) ⟨f, .word n⟩
  | pointer {f : Form} {e : Expr} {n : Int} (h : s.Bounded false .address e n) :
      Encodes m key s (.pointer f e) s.widths ⟨f, .index (.pointer n)⟩
  | noOffset (f : Form) (r : IndexRegister) (indirect : Bool) :
      Encodes m key s (.indexed f (.noOffset r) indirect) s.widths ⟨f, .index (.noOffset r indirect)⟩
  | accumulator (f : Form) (acc : Accumulator) (r : IndexRegister) (indirect : Bool) :
      Encodes m key s (.indexed f (.accumulator acc r) indirect) s.widths ⟨f, .index (.accumulator acc r indirect)⟩
  | stepping (f : Form) (step : Stepping) (r : IndexRegister) (indirect : Bool) :
      Encodes m key s (.indexed f (.stepping step r) indirect) s.widths ⟨f, .index (.stepping step r indirect)⟩
  | offset {f : Form} {e : Expr} {r : IndexRegister} {indirect : Bool} {n : Int}
      (h : s.Bounded false .indexOffset e n) :
      Encodes m key s (.indexed f (.offset e r) indirect) (s.widthsWith key ((s.value e).offsetWidth indirect))
        ⟨f, .index (.ofOffset (s.width key ((s.value e).offsetWidth indirect)) r indirect n)⟩
  | counter {f : Form} {e : Expr} {indirect : Bool} {n : Int} (h : s.Bounded false .counterOffset e n) :
      Encodes m key s (.indexed f (.counter e) indirect) (s.widthsWith key (s.value e).counterWidth)
        ⟨f, .index (.ofCounter (s.width key (s.value e).counterWidth) indirect n)⟩
  | target {f : Form} {e : Expr} {indirect : Bool} {w : Int} (h : s.Admits false e)
      (hw : w = s.width key ((s.value e).targetWidth (s.pc + f.size))) :
      Encodes m key s (.indexed f (.target e) indirect)
        (s.widthsWith key ((s.value e).targetWidth (s.pc + f.size)))
        ⟨f, .index (.ofCounter w indirect ((s.value e).total - (s.pc + f.size + w)))⟩

/-! ### Sizes

The size of a machine instruction does not depend on the numbers in it. -/

theorem length_displacement (f : Form) (d d' : Int) :
    (f.displacement d).bytes.length = (f.displacement d').bytes.length := by
  unfold Form.displacement
  split <;> rfl

theorem length_immediate (f : Form) (n n' : Int) :
    (f.immediate n).bytes.length = (f.immediate n').bytes.length := by
  unfold Form.immediate
  split <;> rfl

theorem length_ofOffset (w : Int) (r : IndexRegister) (indirect : Bool) (n n' : Int) :
    (Machine.Index.ofOffset w r indirect n).bytes.length =
      (Machine.Index.ofOffset w r indirect n').bytes.length := by
  unfold Machine.Index.ofOffset
  split
  · rfl
  · split <;> rfl

theorem length_ofCounter (w : Int) (indirect : Bool) (n n' : Int) :
    (Machine.Index.ofCounter w indirect n).bytes.length =
      (Machine.Index.ofCounter w indirect n').bytes.length := by
  unfold Machine.Index.ofCounter
  split <;> rfl

theorem length_bytes {f : Form} {o o' : Machine.Operand} (h : o.bytes.length = o'.bytes.length) :
    (Machine.Instruction.bytes ⟨f, o⟩).length = (Machine.Instruction.bytes ⟨f, o'⟩).length := by
  simp [Machine.Instruction.bytes, h]

/-! ### Assembling follows the rules -/

open Assemble

variable {m : Mnemonic} {s s' : State}

private theorem emitMachine_eq_ok {f : Form} {operand : Machine.Operand} :
    emitMachine f operand s = .ok () s' ↔ s' = s.emit (Machine.Instruction.bytes ⟨f, operand⟩) :=
  emit_eq_ok

private theorem assembleBranch_eq_ok {f : Form} {name : String} {target : Token} :
    assembleBranch f name target s = .ok () s' ↔
      ∃ d, s.Distance f name d ∧ s' = s.emit (Machine.Instruction.bytes ⟨f, f.displacement d⟩) := by
  rw [assembleBranch, get_bind]
  constructor
  · intro h
    rcases hr : s.symbols.resolve name with _ | v
    · simp only [hr] at h
      split at h
      · exact absurd h refuse_bind_ne_ok
      · next hp => exact ⟨0, .unknown hr hp, emitMachine_eq_ok.1 h⟩
    · simp only [hr] at h
      split at h
      · next hd => exact ⟨_, .known hr hd, emitMachine_eq_ok.1 h⟩
      · exact absurd h refuse_bind_ne_ok
  · rintro ⟨d, hd, rfl⟩
    cases hd with
    | known hr hd =>
      simp only [hr, hd]
      exact emitMachine_eq_ok.2 rfl
    | unknown hr hp =>
      simp only [hr, hp]
      exact emitMachine_eq_ok.2 rfl

private theorem assembleImmediate_eq_ok {f : Form} {e : Expr} :
    assembleImmediate f e s = .ok () s' ↔
      ∃ n, s.Bounded false f.immediateBounds e n ∧ s' = s.emit (Machine.Instruction.bytes ⟨f, f.immediate n⟩) := by
  have key : ∀ (b : Bounds) (g : Int → List UInt8),
      ((evaluate e false >>= fun v => emit (opcodeBytes f.opcode) >>= fun _ =>
        within v b e.next >>= fun n => emit (g n)) s = .ok () s' ↔
      ∃ n, s.Bounded false b e n ∧ s' = s.emit (opcodeBytes f.opcode ++ g n)) := by
    intro b g
    simp only [bind_eq_ok, evaluate_eq_ok, emit_eq_ok, within_eq_ok]
    constructor
    · rintro ⟨_, _, ⟨rfl, rfl, ha⟩, _, _, rfl, n, _, ⟨rfl, hn, hc⟩, rfl⟩
      exact ⟨n, ⟨hn, ha, hc⟩, State.emit_emit ..⟩
    · rintro ⟨n, ⟨hn, ha, hc⟩, rfl⟩
      exact ⟨_, _, ⟨rfl, rfl, ha⟩, (), _, rfl, n, _, ⟨rfl, hn, hc⟩, (State.emit_emit ..).symm⟩
  unfold assembleImmediate Form.immediateBounds Form.immediate
  by_cases h : f.operandSize = 1
  · simp only [h, ↓reduceIte]
    exact key .immediateByte fun n => [lowByte n]
  · simp only [h, ↓reduceIte]
    exact key .immediateWord wordBytes

private theorem assembleDirect_eq_ok {f : Form} {e : Expr} :
    assembleDirect f e s = .ok () s' ↔
      s.Admits false e ∧ ((s.value e).settled = true →
        (-128 ≤ (s.value e).total ∧ (s.value e).total ≤ 255) ∨ s.onPage (s.value e).total = true) ∧
      s' = s.emit (Machine.Instruction.bytes ⟨f, .byte (s.value e).total⟩) := by
  simp only [assembleDirect, bind_eq_ok, evaluate_eq_ok, get_eq_ok]
  constructor
  · rintro ⟨v, t, ⟨ht, hv, ha⟩, t₁, t₂, ⟨h₁, h₂⟩, h⟩
    subst t₁ t₂ t v
    split at h
    · exact absurd h refuse_ne_ok
    · next hc =>
      refine ⟨ha, ?_, emitMachine_eq_ok.1 h⟩
      intro hs
      by_cases hp : s.onPage (s.value e).total = true
      · exact .inr hp
      · simp only [hs, hp, Bool.true_and, Bool.not_false, Bool.and_true, Bool.not_eq_true', Bool.not_eq_false,
          Bool.and_eq_true, decide_eq_true_eq] at hc
        exact .inl hc
  · rintro ⟨ha, hb, rfl⟩
    refine ⟨_, _, ⟨rfl, rfl, ha⟩, _, _, ⟨rfl, rfl⟩, ?_⟩
    rw [if_neg]
    · exact emitMachine_eq_ok.2 rfl
    · intro hc
      simp only [Bool.and_eq_true, Bool.not_eq_true', Bool.and_eq_false_iff, decide_eq_false_iff_not] at hc
      obtain ⟨⟨hs, hr⟩, hp⟩ := hc
      rcases hb hs with h | h
      · omega
      · simp [h] at hp

private theorem choose_emitMachine_eq_ok {key own : Int} {f : Form} {g : Int → Machine.Operand} :
    (choose key own >>= fun w => emitMachine f (g w)) s = .ok () s' ↔
      s' = State.emit (Machine.Instruction.bytes ⟨f, g (s.width key own)⟩)
        { s with widths := s.widthsWith key own } := by
  simp only [bind_eq_ok, choose_eq_ok, emitMachine_eq_ok]
  constructor
  · rintro ⟨_, _, ⟨rfl, rfl⟩, rfl⟩
    rw [State.choose_snd]
    rfl
  · rintro rfl
    refine ⟨_, _, ⟨rfl, rfl⟩, ?_⟩
    rw [State.choose_snd]
    rfl

/-- What is left to do for an address once its width is chosen. -/
private def storeAddress (m : Mnemonic) (mnemonic : Token) (e : Expr) (v : Value) (w : Int) : Assemble Unit :=
  if w = 1 then
    match m.form? .direct with
    | some f => emitMachine f (.byte v.total)
    | none => refuse (.unsupportedForm m .direct) mnemonic e.next
  else
    match m.form? .extended with
    | some f => do emitMachine f (.word (← within v .address e.next))
    | none => refuse (.unsupportedForm m .extended) mnemonic e.next

private theorem assembleAddress_eq_storeAddress {mnemonic : Token} {e : Expr} :
    assembleAddress m mnemonic e s = .ok () s' ↔ s.Admits false e ∧
      storeAddress m mnemonic e (s.value e) (s.width mnemonic.index (addressWidth m s e))
        { s with widths := s.widthsWith mnemonic.index (addressWidth m s e) } = .ok () s' := by
  rw [← State.choose_snd]
  simp only [assembleAddress, bind_eq_ok, evaluate_eq_ok, get_eq_ok, choose_eq_ok]
  constructor
  · rintro ⟨v, t, ⟨ht, hv, ha⟩, t₁, t₂, ⟨h₁, h₂⟩, w, t₃, ⟨hw, h₃⟩, h⟩
    subst t₁ t₂ t v w t₃
    exact ⟨ha, h⟩
  · rintro ⟨ha, h⟩
    exact ⟨_, _, ⟨rfl, rfl, ha⟩, _, _, ⟨rfl, rfl⟩, _, _, ⟨rfl, rfl⟩, h⟩

private theorem assembleAddress_eq_ok {mnemonic : Token} {e : Expr} :
    assembleAddress m mnemonic e s = .ok () s' ↔
      ∃ ws i, Encodes m mnemonic.index s (.address e) ws i ∧ s' = State.emit i.bytes { s with widths := ws } := by
  rw [assembleAddress_eq_storeAddress]
  unfold storeAddress
  constructor
  · rintro ⟨ha, h⟩
    split at h
    · next hone =>
      rcases hf : m.form? .direct with _ | f
      · simp only [hf] at h
        exact absurd h refuse_ne_ok
      · simp only [hf] at h
        exact ⟨_, _, .shortAddress ha hone hf, emitMachine_eq_ok.1 h⟩
    · next hone =>
      rcases hf : m.form? .extended with _ | f
      · simp only [hf] at h
        exact absurd h refuse_ne_ok
      · simp only [hf, bind_eq_ok, within_eq_ok] at h
        obtain ⟨n, _, ⟨rfl, hn, hc⟩, h⟩ := h
        exact ⟨_, _, .longAddress ⟨hn, ha, hc⟩ hone hf, emitMachine_eq_ok.1 h⟩
  · rintro ⟨ws, i, hi, rfl⟩
    cases hi with
    | shortAddress ha hw hf =>
      refine ⟨ha, ?_⟩
      simp only [hw, hf, ↓reduceIte]
      exact emitMachine_eq_ok.2 rfl
    | longAddress hb hw hf =>
      refine ⟨hb.admits, ?_⟩
      simp only [hw, hf, ↓reduceIte, bind_eq_ok, within_eq_ok]
      exact ⟨_, _, ⟨rfl, hb.total, hb.contains⟩, emitMachine_eq_ok.2 rfl⟩

private theorem assembleTarget_eq_ok {key : Nat} {f : Form} {e : Expr} {indirect : Bool} :
    assembleTarget key f e indirect s = .ok () s' ↔
      ∃ ws i, Encodes m key s (.indexed f (.target e) indirect) ws i ∧
        s' = State.emit i.bytes { s with widths := ws } := by
  simp only [assembleTarget, bind_eq_ok, evaluate_eq_ok, get_eq_ok]
  constructor
  · rintro ⟨v, t, ⟨ht, hv, ha⟩, t₁, t₂, ⟨h₁, h₂⟩, h⟩
    subst t₁ t₂ t v
    exact ⟨_, _, .target ha rfl, choose_emitMachine_eq_ok.1 (bind_eq_ok.2 h)⟩
  · rintro ⟨ws, i, hi, rfl⟩
    cases hi with
    | target ha hw =>
      subst hw
      exact ⟨_, _, ⟨rfl, rfl, ha⟩, _, _, ⟨rfl, rfl⟩, bind_eq_ok.1 (choose_emitMachine_eq_ok.2 rfl)⟩

private theorem assembleIndexed_eq_ok {key : Nat} {f : Form} {indirect : Bool} {next : Nat}
    {operand : IndexOperand} :
    assembleIndexed key f indirect next operand s = .ok () s' ↔
      ∃ ws i, Encodes m key s (.indexed f operand indirect) ws i ∧
        s' = State.emit i.bytes { s with widths := ws } := by
  cases operand with
  | noOffset r =>
    refine emitMachine_eq_ok.trans ⟨fun h => ⟨_, _, .noOffset f r indirect, h⟩, ?_⟩
    rintro ⟨_, _, ⟨⟩, h⟩
    exact h
  | accumulator acc r =>
    refine emitMachine_eq_ok.trans ⟨fun h => ⟨_, _, .accumulator f acc r indirect, h⟩, ?_⟩
    rintro ⟨_, _, ⟨⟩, h⟩
    exact h
  | stepping step r =>
    refine emitMachine_eq_ok.trans ⟨fun h => ⟨_, _, .stepping f step r indirect, h⟩, ?_⟩
    rintro ⟨_, _, ⟨⟩, h⟩
    exact h
  | offset e r =>
    refine evaluate_within_eq_ok.trans ⟨?_, ?_⟩
    · rintro ⟨n, hb, h⟩
      exact ⟨_, _, .offset hb, choose_emitMachine_eq_ok.1 h⟩
    · rintro ⟨_, _, hi, h⟩
      cases hi with
      | offset hb => exact ⟨_, hb, choose_emitMachine_eq_ok.2 h⟩
  | counter e =>
    refine evaluate_within_eq_ok.trans ⟨?_, ?_⟩
    · rintro ⟨n, hb, h⟩
      exact ⟨_, _, .counter hb, choose_emitMachine_eq_ok.1 h⟩
    · rintro ⟨_, _, hi, h⟩
      cases hi with
      | counter hb => exact ⟨_, hb, choose_emitMachine_eq_ok.2 h⟩
  | target e => exact assembleTarget_eq_ok

/-- Assembling an instruction succeeds exactly if a rule applies, and then emits what the rule says. -/
theorem assemble_eq_ok {mnemonic : Token} {next : Nat} {i : Instruction} :
    i.assemble m mnemonic next s = .ok () s' ↔
      ∃ ws mi, i.Encodes m mnemonic.index s ws mi ∧ s' = State.emit mi.bytes { s with widths := ws } := by
  cases i with
  | inherent f =>
    refine emitMachine_eq_ok.trans ⟨fun h => ⟨_, _, .inherent f, h⟩, ?_⟩
    rintro ⟨_, _, ⟨⟩, h⟩
    exact h
  | transfer f source target =>
    refine emitMachine_eq_ok.trans ⟨fun h => ⟨_, _, .transfer f source target, h⟩, ?_⟩
    rintro ⟨_, _, ⟨⟩, h⟩
    exact h
  | stack f rs =>
    refine emitMachine_eq_ok.trans ⟨fun h => ⟨_, _, .stack f rs, h⟩, ?_⟩
    rintro ⟨_, _, ⟨⟩, h⟩
    exact h
  | branch f name target =>
    refine assembleBranch_eq_ok.trans ⟨?_, ?_⟩
    · rintro ⟨d, hd, h⟩
      exact ⟨_, _, .branch hd, h⟩
    · rintro ⟨_, _, hi, h⟩
      cases hi with
      | branch hd => exact ⟨_, hd, h⟩
  | immediate f e =>
    refine assembleImmediate_eq_ok.trans ⟨?_, ?_⟩
    · rintro ⟨n, hb, h⟩
      exact ⟨_, _, .immediate hb, h⟩
    · rintro ⟨_, _, hi, h⟩
      cases hi with
      | immediate hb => exact ⟨_, hb, h⟩
  | direct f e =>
    refine assembleDirect_eq_ok.trans ⟨?_, ?_⟩
    · rintro ⟨ha, hb, h⟩
      exact ⟨_, _, .direct ha hb, h⟩
    · rintro ⟨_, _, hi, h⟩
      cases hi with
      | direct ha hb => exact ⟨ha, hb, h⟩
  | extended f e =>
    refine evaluate_within_eq_ok.trans ⟨?_, ?_⟩
    · rintro ⟨n, hb, h⟩
      exact ⟨_, _, .extended hb, emitMachine_eq_ok.1 h⟩
    · rintro ⟨_, _, hi, h⟩
      cases hi with
      | extended hb => exact ⟨_, hb, emitMachine_eq_ok.2 h⟩
  | pointer f e =>
    refine evaluate_within_eq_ok.trans ⟨?_, ?_⟩
    · rintro ⟨n, hb, h⟩
      exact ⟨_, _, .pointer hb, emitMachine_eq_ok.1 h⟩
    · rintro ⟨_, _, hi, h⟩
      cases hi with
      | pointer hb => exact ⟨_, hb, emitMachine_eq_ok.2 h⟩
  | address e => exact assembleAddress_eq_ok
  | indexed f operand indirect => exact assembleIndexed_eq_ok

end Instruction

end Mc6809
