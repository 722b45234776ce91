import Mc6809.Proofs.Assembly.Displacement
import Mc6809.Proofs.Reading.Basic

/-!
# What does not depend on its place

An action floats if it sets no origin and the labels in its expressions cancel out, except where the distance to a
label is stored (`Action.Floats`).  Statements whose actions float do the same after a displacement
(`Statement.run_moves`), so a run over them from a displaced state comes to the displaced end (`run_move`).
Without a distance every statement does.
-/

namespace Mc6809

open Assemble

variable {m : Displacement} {p : Pass}

/-! ### Instructions -/

namespace Instruction

/-- The target of a branch. -/
def targets : Instruction → List String
  | branch _ name _ => [name]
  | _ => []

/-- What the signs of the labels in an operand have to add up to: one where the distance to an address is stored,
and zero where a number is. -/
def share : Instruction → Int
  | indexed _ (.target _) _ => 1
  | _ => 0

/-- A branch leads to a label, and the labels in an expression cancel out, up to the share of the operand. -/
structure Floats (labels : List String) (i : Instruction) : Prop where
  target : ∀ name ∈ i.targets, name ∈ labels
  weight : ∀ e ∈ i.expr?, e.weight labels = i.share

private theorem emitMachine_moves {f : Form} {o o' : Machine.Operand} (hl : o'.bytes.length = o.bytes.length)
    (hb : p = .second → o' = o) : Moves m p Eq (emitMachine f o) (emitMachine f o') :=
  Moves.emit (length_bytes hl) fun hp => by rw [hb hp]

private theorem assembleBranch_moves {f : Form} {name : String} {target : Token}
    (h : m.distance = 0 ∨ name ∈ m.labels) :
    Moves m p Eq (assembleBranch f name target) (assembleBranch f name target) := by
  refine Moves.get.bind ?_
  rintro s _ ⟨hs, rfl⟩
  have hresolve : (s.move m).symbols.resolve name = (s.symbols.resolve name).map (· + m.distance) :=
    Symbols.resolve_move_of_mem hs.apart h
  have hsimilar : (s.move m).symbols.similar name = s.symbols.similar name := Symbols.similar_move ..
  have hpass : (s.move m).pass = s.pass := rfl
  have hpc : (s.move m).pc = s.pc + m.distance := rfl
  have hemit : ∀ o o' : Int, o = o' → Moves m p Eq (emitMachine f (if f.operandSize = 2 then .word o else .byte o))
      (emitMachine f (if f.operandSize = 2 then .word o' else .byte o')) := by
    rintro o _ rfl
    exact emitMachine_moves rfl fun _ => rfl
  rw [hresolve, hsimilar, hpass, hpc]
  rcases s.symbols.resolve name with _ | v
  · dsimp only [Option.map_none]
    split
    · exact (Moves.refuse _ _ _).bind hemit
    · exact (Moves.pure rfl).bind hemit
  -- Target and program counter move together, so the distance between them stays.
  · have hoffset : v + m.distance - (s.pc + m.distance + f.size) = v - (s.pc + f.size) := by omega
    dsimp only [Option.map_some]
    rw [hoffset]
    split
    · exact (Moves.pure rfl).bind hemit
    · exact (Moves.refuse _ _ _).bind hemit

private theorem assembleImmediate_moves {f : Form} {e : Expr} (h : m.distance = 0 ∨ e.weight m.labels = 0) :
    Moves m p Eq (assembleImmediate f e) (assembleImmediate f e) := by
  refine (Moves.evaluate_of_weight h false).bind fun v v' hv =>
    (Moves.emit rfl fun _ => rfl).bind fun _ _ _ => ?_
  split
  · refine (Moves.within hv _ _).bind fun n n' hn => Moves.emit rfl fun hp => ?_
    rw [hn (.inr hp)]
  · refine (Moves.within hv _ _).bind fun n n' hn => Moves.emit rfl fun hp => ?_
    rw [hn (.inr hp)]

private theorem assembleDirect_moves {f : Form} {e : Expr} (h : m.distance = 0 ∨ e.weight m.labels = 0) :
    Moves m p Eq (assembleDirect f e) (assembleDirect f e) := by
  refine (Moves.evaluate_of_weight h false).bind fun v v' hv => Moves.get.bind ?_
  rintro s _ ⟨-, rfl⟩
  have hpage : (s.move m).onPage = s.onPage := rfl
  have hdp : (s.move m).dp = s.dp := rfl
  rw [hpage, hdp]
  rcases hv.eq_or with rfl | ⟨hs, hs'⟩
  · split
    · exact Moves.refuse _ _ _
    · exact emitMachine_moves rfl fun _ => rfl
  -- A value that is not settled is not refused, and the second pass has none.
  · simp only [hs, hs', Bool.false_and, Bool.false_eq_true, ↓reduceIte]
    refine emitMachine_moves rfl fun hp => ?_
    rw [hv.known (.inr hp)] at hs
    cases hs

private theorem assembleExtended_moves {f : Form} {e : Expr} (h : m.distance = 0 ∨ e.weight m.labels = 0) :
    Moves m p Eq (assembleExtended f e) (assembleExtended f e) := by
  refine Moves.evaluate_within h _ _ fun _ _ n n' _ hn => emitMachine_moves rfl fun hp => ?_
  rw [hn (.inr hp)]

private theorem assembleAddress_moves {mn : Mnemonic} {mnemonic : Token} {e : Expr}
    (h : m.distance = 0 ∨ e.weight m.labels = 0) :
    Moves m p Eq (assembleAddress mn mnemonic e) (assembleAddress mn mnemonic e) := by
  refine (Moves.evaluate_of_weight h false).bind fun v v' hv => Moves.get.bind ?_
  rintro s _ ⟨-, rfl⟩
  have hshort : (v'.settled && (mn.form? .direct).isSome && (s.move m).isShort v'.total) =
      (v.settled && (mn.form? .direct).isSome && s.isShort v.total) := by
    rcases hv.eq_or with rfl | ⟨hs, hs'⟩
    · rfl
    · rw [hs, hs']
      rfl
  dsimp only
  rw [hshort]
  refine (Moves.choose _ _).bind ?_
  rintro w _ rfl
  split
  · rcases mn.form? .direct with _ | f
    · exact Moves.refuse _ _ _
    · refine emitMachine_moves rfl fun hp => ?_
      rw [hv.eq_of_settled (hv.known (.inr hp))]
  · rcases mn.form? .extended with _ | f
    · exact Moves.refuse _ _ _
    · refine (Moves.within hv _ _).bind fun n n' hn => emitMachine_moves rfl fun hp => ?_
      rw [hn (.inr hp)]

private theorem assemblePointer_moves {f : Form} {e : Expr} {next : Nat}
    (h : m.distance = 0 ∨ e.weight m.labels = 0) :
    Moves m p Eq (assemblePointer f e next) (assemblePointer f e next) := by
  refine Moves.evaluate_within h _ _ fun _ _ n n' _ hn => emitMachine_moves rfl fun hp => ?_
  rw [hn (.inr hp)]

private theorem assembleOffset_moves {key : Nat} {f : Form} {e : Expr} {r : IndexRegister} {indirect : Bool}
    {next : Nat} (h : m.distance = 0 ∨ e.weight m.labels = 0) :
    Moves m p Eq (assembleOffset key f e r indirect next) (assembleOffset key f e r indirect next) := by
  refine Moves.evaluate_within h _ _ fun v v' n n' hv hn => ?_
  have hwidth : v'.offsetWidth indirect = v.offsetWidth indirect := by
    rcases hv.eq_or with rfl | ⟨hs, hs'⟩
    · rfl
    · simp [Value.offsetWidth, hs, hs']
  rw [hwidth]
  refine (Moves.choose _ _).bind ?_
  rintro w _ rfl
  refine emitMachine_moves (length_ofOffset ..) fun hp => ?_
  rw [hn (.inr hp)]

private theorem assembleCounter_moves {key : Nat} {f : Form} {e : Expr} {indirect : Bool} {next : Nat}
    (h : m.distance = 0 ∨ e.weight m.labels = 0) :
    Moves m p Eq (assembleCounter key f e indirect next) (assembleCounter key f e indirect next) := by
  refine Moves.evaluate_within h _ _ fun v v' n n' hv hn => ?_
  have hwidth : v'.counterWidth = v.counterWidth := by
    rcases hv.eq_or with rfl | ⟨hs, hs'⟩
    · rfl
    · simp [Value.counterWidth, hs, hs']
  rw [hwidth]
  refine (Moves.choose _ _).bind ?_
  rintro w _ rfl
  refine emitMachine_moves (length_ofCounter ..) fun hp => ?_
  rw [hn (.inr hp)]

/-- A target moves with the program counter. -/
private theorem assembleTarget_moves {key : Nat} {f : Form} {e : Expr} {indirect : Bool}
    (h : m.distance * e.weight m.labels = m.distance) :
    Moves m p Eq (assembleTarget key f e indirect) (assembleTarget key f e indirect) := by
  refine (Moves.evaluate e false).bind fun v v' hv => Moves.get.bind ?_
  rintro s _ ⟨-, rfl⟩
  rw [h] at hv
  have hpc : (s.move m).pc = s.pc + m.distance := rfl
  have hafter : ∀ n : Int, v.settled = true →
      v'.total - (s.pc + m.distance + f.size + n) = v.total - (s.pc + f.size + n) := by
    intro n hs
    rw [hv.total hs]
    omega
  have hwidth : v'.targetWidth (s.pc + m.distance + f.size) = v.targetWidth (s.pc + f.size) := by
    unfold Value.targetWidth
    rw [hv.settled]
    rcases hs : v.settled with _ | _
    · rfl
    · rw [hafter 1 hs]
  dsimp only
  rw [hpc, hwidth]
  refine (Moves.choose _ _).bind ?_
  rintro w _ rfl
  refine emitMachine_moves (length_ofCounter ..) fun hp => ?_
  rw [hafter w (hv.known (.inr hp))]

/-- An instruction that floats is assembled in the same way after a displacement. -/
private theorem assemble_moves {mn : Mnemonic} {mnemonic : Token} {next : Nat} {i : Instruction}
    (h : m.distance = 0 ∨ i.Floats m.labels) :
    Moves m p Eq (i.assemble mn mnemonic next) (i.assemble mn mnemonic next) := by
  cases i with
  | inherent f => exact emitMachine_moves rfl fun _ => rfl
  | transfer f source target => exact emitMachine_moves rfl fun _ => rfl
  | stack f rs => exact emitMachine_moves rfl fun _ => rfl
  | branch f name target =>
    exact assembleBranch_moves (h.imp_right fun h => h.target name (List.mem_singleton_self _))
  | immediate f e => exact assembleImmediate_moves (h.imp_right fun h => h.weight e rfl)
  | direct f e => exact assembleDirect_moves (h.imp_right fun h => h.weight e rfl)
  | extended f e => exact assembleExtended_moves (h.imp_right fun h => h.weight e rfl)
  | address e => exact assembleAddress_moves (h.imp_right fun h => h.weight e rfl)
  | pointer f e => exact assemblePointer_moves (h.imp_right fun h => h.weight e rfl)
  | indexed f operand indirect =>
    cases operand with
    | noOffset r => exact emitMachine_moves rfl fun _ => rfl
    | accumulator acc r => exact emitMachine_moves rfl fun _ => rfl
    | stepping step r => exact emitMachine_moves rfl fun _ => rfl
    | offset e r => exact assembleOffset_moves (h.imp_right fun h => h.weight e rfl)
    | counter e => exact assembleCounter_moves (h.imp_right fun h => h.weight e rfl)
    | target e =>
      refine assembleTarget_moves ?_
      rcases h with h | h
      · simp [h]
      · rw [h.weight e rfl]
        exact Int.mul_one _

end Instruction

/-! ### Actions -/

namespace Action

/-- The target of a branch. -/
def targets : Action → List String
  | instruct _ _ i _ => i.targets
  | _ => []

/-- What the signs of the labels in each expression have to add up to. -/
def share : Action → Int
  | instruct _ _ i _ => i.share
  | _ => 0

/-- An action sets no origin, defines no label as a constant, and depends on addresses only through the distances
between them. -/
structure Floats (labels : List String) (a : Action) : Prop where
  origin : a.isOrigin = false
  defined : ∀ name ∈ a.defined?, name ∉ labels
  target : ∀ name ∈ a.targets, name ∈ labels
  weight : ∀ e ∈ a.exprs, e.weight labels = a.share

end Action

private theorem emitBlock_moves {value value' count count' : Int} (hc : count' = count)
    (hv : p = .second → value' = value) : Moves m p Eq (emitBlock value count) (emitBlock value' count') := by
  subst hc
  refine Moves.emit (by simp) fun hp => ?_
  rw [hv hp]

private theorem defineConstant_moves {name : String} {place : Token} {e : Expr}
    (h : m.distance = 0 ∨ name ∉ m.labels ∧ e.weight m.labels = 0) :
    Moves m p Eq (defineConstant name place e) (defineConstant name place e) := by
  refine (Moves.evaluate_of_weight (h.imp_right And.right) true).bind fun v v' hv => Moves.get.bind ?_
  rintro s _ ⟨hs, rfl⟩
  obtain rfl : v' = v := hv.eq_of_settled (hv.known (.inl rfl))
  have hsymbols : (s.move m).symbols.constants = s.symbols.constants := rfl
  unfold Symbols.defineConstant Bindings.define
  rw [hsymbols]
  dsimp only
  rcases s.symbols.constants.binding? name with _ | old
  · exact (Moves.set (hs.addConstant (h.imp_right And.left) place v'.total) rfl).bind fun _ _ _ => Moves.note rfl
  · exact (Moves.refuse _ _ _).bind fun _ _ (_ : () = ()) => Moves.note rfl

private theorem setOrigin_moves {e : Expr} (h : m.distance = 0) : Moves m p Eq (setOrigin e) (setOrigin e) := by
  refine (Moves.bounded (.inl h) .origin true).bind fun n n' hn => ?_
  obtain rfl : n' = n := hn (.inl rfl)
  refine Moves.bind (R := Eq) (Moves.modify ?_) fun _ _ _ => Moves.note rfl
  intro s hs
  exact ⟨⟨hs.pass, hs.apart⟩, by simp [State.move, h]⟩

private theorem setPage_moves {e : Expr} (h : m.distance = 0 ∨ e.weight m.labels = 0) :
    Moves m p Eq (setPage e) (setPage e) := by
  refine (Moves.bounded h .page true).bind fun n n' hn => ?_
  obtain rfl : n' = n := hn (.inl rfl)
  refine Moves.bind (R := Eq) (Moves.modify ?_) fun _ _ _ => Moves.note rfl
  intro s hs
  exact ⟨⟨hs.pass, hs.apart⟩, rfl⟩

private theorem reserveVariables_moves {place : Token} {size : Expr} {count : Option Expr}
    (hs : m.distance = 0 ∨ size.weight m.labels = 0)
    (hc : ∀ e ∈ count, m.distance = 0 ∨ e.weight m.labels = 0) :
    Moves m p Eq (reserveVariables place size count) (reserveVariables place size count) := by
  refine (Moves.bounded hs .variableSize true).bind fun n n' hn => ?_
  obtain rfl : n' = n := hn (.inl rfl)
  have key : ∀ k k' : Int, Agree p true k k' → Moves m p Eq
      (if Bounds.maxBlock < n' * k then refuse (.blockTooLarge (n' * k)) place (count.getD size).next
        else emitBlock 0 (n' * k) : Assemble Unit)
      (if Bounds.maxBlock < n' * k' then refuse (.blockTooLarge (n' * k')) place (count.getD size).next
        else emitBlock 0 (n' * k') : Assemble Unit) := by
    intro k k' hk
    obtain rfl : k' = k := hk (.inl rfl)
    split
    · exact Moves.refuse _ _ _
    · exact emitBlock_moves rfl fun _ => rfl
  cases count with
  | none => exact (Moves.pure fun _ => rfl).bind key
  | some e => exact (Moves.bounded (hc e rfl) .variableCount true).bind key

private theorem fillBlock_moves {value count : Expr} (hv : m.distance = 0 ∨ value.weight m.labels = 0)
    (hc : m.distance = 0 ∨ count.weight m.labels = 0) :
    Moves m p Eq (fillBlock value count) (fillBlock value count) := by
  refine (Moves.bounded hv .fillValue false).bind fun n n' hn => ?_
  refine (Moves.bounded hc .fillCount true).bind fun k k' hk => ?_
  exact emitBlock_moves (hk (.inl rfl)) fun hp => hn (.inr hp)

private theorem emitText_moves {cell : Cell} {t : String} {place : Token} :
    Moves m p Eq (emitText cell t place) (emitText cell t place) := by
  unfold emitText
  split
  · exact Moves.refuse _ _ _
  · exact Moves.emit rfl fun _ => rfl

/-- An action that floats does the same after a displacement. -/
private theorem Action.run_moves {a : Action} (h : m.distance = 0 ∨ a.Floats m.labels) : Moves m p Eq a.run a.run := by
  have hweight : ∀ e ∈ a.exprs, m.distance = 0 ∨ e.weight m.labels = a.share :=
    fun e he => h.imp_right fun h => h.weight e he
  cases a with
  | define name place e =>
    exact defineConstant_moves (h.imp_right fun h => ⟨h.defined name rfl, h.weight e (List.mem_singleton_self _)⟩)
  | origin e => exact setOrigin_moves (h.resolve_right fun h => by cases h.origin)
  | page e => exact setPage_moves (hweight e (List.mem_singleton_self _))
  | reserve e =>
    refine (Moves.bounded (hweight e (List.mem_singleton_self _)) .reservation true).bind fun n n' hn => ?_
    exact emitBlock_moves (hn (.inl rfl)) fun _ => rfl
  | reserveMany place size count =>
    refine reserveVariables_moves (hweight size (List.mem_cons_self ..)) fun e he => ?_
    exact hweight e (List.mem_cons_of_mem _ (Option.mem_toList.2 he))
  | fill value count =>
    exact fillBlock_moves (hweight value (List.mem_cons_self ..))
      (hweight count (List.mem_cons_of_mem _ (List.mem_singleton_self _)))
  | check e b required =>
    exact (Moves.bounded (hweight e (List.mem_singleton_self _)) b required).bind fun _ _ _ => Moves.pure rfl
  | text cell t place => exact emitText_moves
  | value cell e =>
    refine (Moves.bounded (hweight e (List.mem_singleton_self _)) cell.bounds false).bind fun n n' hn => ?_
    refine Moves.emit (Cell.length_bytes ..) fun hp => ?_
    rw [hn (.inr hp)]
  | terminator d place => exact Moves.note rfl
  | instruct mn mnemonic i next =>
    exact Instruction.assemble_moves
      (h.imp_right fun h => ⟨h.target, fun e he => h.weight e (Option.mem_toList.2 he)⟩)
  | stop => exact Moves.modify fun s hs => ⟨⟨hs.pass, hs.apart⟩, rfl⟩

/-! ### Statements -/

/-- The label of a statement is among some names, and its actions float. -/
structure Statement.Floats (labels : List String) (st : Statement) : Prop where
  label : ∀ x ∈ st.label, x.1 ∈ labels
  actions : ∀ a ∈ st.actions, a.Floats labels

private theorem bindLabel_moves {name : String} {place : Token} (h : m.distance = 0 ∨ name ∈ m.labels) :
    Moves m p Eq (bindLabel name place) (bindLabel name place) := by
  refine Moves.get.bind ?_
  rintro s _ ⟨hs, rfl⟩
  cases s with
  | mk base pass pc dp symbols widths output listing ended notes placeholder =>
    cases pass with
    | first =>
      unfold State.move Symbols.defineLabel Bindings.define Symbols.move
      dsimp only
      rw [Bindings.binding?_move]
      rcases symbols.labels.binding? name with _ | old
      · refine Moves.set (hs.addLabel h place) ?_
        simp [State.move, Symbols.move, Binding.move]
      · exact Moves.refuse _ _ _
    | second =>
      unfold State.move Symbols.move
      dsimp only
      rw [Bindings.value?_move]
      rcases symbols.labels.value? name with _ | address
      · exact Moves.throw fun _ => rfl
      · dsimp only [Option.map_some]
        by_cases ha : address = pc
        · rw [if_pos ha, if_pos (by rw [ha])]
          exact Moves.pure rfl
        -- Both are out of phase by the same amount, so the report is the same only without a distance.
        · rw [if_neg ha, if_neg (by omega)]
          exact Moves.throw fun hd => by simp [hd]

/-- Actions that float do the same after a displacement, and so does a fault behind them. -/
private theorem runActions_moves {as : List Action} (fault : Option Fault)
    (h : m.distance = 0 ∨ ∀ a ∈ as, a.Floats m.labels) :
    Moves m p Eq (runActions as fault) (runActions as fault) := by
  have hall : Moves m p Eq (as.forM Action.run) (as.forM Action.run) := by
    induction as with
    | nil => exact Moves.pure rfl
    | cons a as ih =>
      have ha := Action.run_moves (p := p) (h.imp_right fun h => h a (List.mem_cons_self ..))
      exact ha.bind fun _ _ _ => ih (h.imp_right fun h b hb => h b (List.mem_cons_of_mem _ hb))
  refine hall.bind fun _ _ _ => ?_
  cases fault with
  | none => exact Moves.pure rfl
  | some f => exact Moves.fail f

/-- A statement that floats does the same after a displacement. -/
theorem Statement.run_moves {st : Statement} (h : m.distance = 0 ∨ st.Floats m.labels) :
    Moves m p Eq st.run st.run := by
  intro s hs
  have hpass : (s.move m).pass = s.pass := rfl
  rw [run_eq_bind, run_eq_bind (s := s.move m), hpass]
  refine Moves.bind (R := Eq) ?_ (fun _ _ _ => Moves.bind (R := Eq) ?_ fun _ _ _ => ?_) s hs
  · rcases hl : st.label with _ | ⟨name, place⟩
    · exact Moves.pure rfl
    · exact bindLabel_moves (h.imp_right fun h => h.label _ hl)
  · split
    · exact Moves.pure rfl
    · exact runActions_moves st.fault (h.imp_right Statement.Floats.actions)
  · split
    · refine Moves.modify fun t ht => ⟨⟨ht.pass, ht.apart⟩, ?_⟩
      simp [State.record, State.move, Row.move]
    · exact Moves.pure rfl

/-! ### Runs -/

/-- The statement of a line floats, if it has one. -/
def Line.Floats (labels : List String) (l : Line) : Prop :=
  ∀ st ∈ l.statement?, st.Floats labels

private theorem Line.run_moves {l : Line} (h : m.distance = 0 ∨ l.Floats m.labels) : Moves m p Eq l.run l.run := by
  unfold Line.run
  rcases hl : l.statement? with _ | st
  · exact Moves.pure rfl
  · exact Statement.run_moves (h.imp_right fun h => h st hl)

/-- Both of two runs fail or none does, and without a distance they fail in the same way. -/
inductive Displacement.Fails (m : Displacement) : Option Failure → Option Failure → Prop
  | none : Fails m none none
  | some {e e' : Failure} (h : m.distance = 0 → e' = e) : Fails m (some e) (some e')

namespace Displacement.Fails

variable {e e' : Option Failure}

theorem eq_of_distance (h : m.Fails e e') (hd : m.distance = 0) : e' = e := by
  cases h with
  | none => rfl
  | some h => rw [h hd]

theorem eq_none_iff (h : m.Fails e e') : e' = .none ↔ e = .none := by
  cases h <;> simp

end Displacement.Fails

/-- A walk from a displaced state comes to the displaced end. -/
private theorem walk_move {s : State} (hs : s.Fits m p) {ls : List Line}
    (h : m.distance = 0 ∨ ∀ l ∈ ls, l.Floats m.labels) :
    (walk (s.move m) ls).1 = (walk s ls).1.move m ∧ m.Fails (walk s ls).2 (walk (s.move m) ls).2 ∧
      ((walk s ls).2 = none → (walk s ls).1.Fits m p) := by
  induction ls generalizing s with
  | nil => exact ⟨rfl, .none, fun _ => hs⟩
  | cons l ls ih =>
    have hended : (s.move m).ended = s.ended := rfl
    unfold walk
    rw [hended]
    split
    · exact ⟨rfl, .none, fun _ => hs⟩
    · have hl := Line.run_moves (h.imp_right fun h => h l (List.mem_cons_self ..)) s hs
      generalize l.run s = r, l.run (s.move m) = r' at hl ⊢
      cases hl with
      | ok ht => exact ih ht (h.imp_right fun h l hl => h l (List.mem_cons_of_mem _ hl))
      | error he => exact ⟨rfl, .some he, fun hn => by cases hn⟩

namespace State

private theorem start_move (m : Displacement) (s : State) (p : Pass) : (s.move m).start p = (s.start p).move m := by
  simp [start, move]

private theorem note_summary_move (m : Displacement) (s : State) :
    (s.move m).note (s.move m).summary = (s.note s.summary).move m := by
  simp [note, summary, move, Symbols.move, Note.move]

private theorem turn_move (m : Displacement) (s : State) : (s.move m).turn = s.turn.move m := by
  rw [turn, note_summary_move, start_move, turn]

end State

/-- A run from a displaced state over lines that float comes to the displaced end. -/
theorem run_move {s : State} (hs : m.distance = 0 ∨ s.symbols.Apart m.labels) {ls : List Line}
    (h : m.distance = 0 ∨ ∀ l ∈ ls, l.Floats m.labels) :
    (run (s.move m) ls).state = (run s ls).state.move m ∧
      m.Fails (run s ls).failure (run (s.move m) ls).failure := by
  obtain ⟨hstate₁, hfails₁, hfits⟩ := walk_move (s := s.start .first) (p := .first) ⟨rfl, hs⟩ h
  unfold run
  rw [State.start_move]
  generalize walk (s.start .first) ls = w₁, walk ((s.start .first).move m) ls = w₁' at hstate₁ hfails₁ hfits ⊢
  obtain ⟨t, e⟩ := w₁
  obtain ⟨t', e'⟩ := w₁'
  obtain rfl : t' = t.move m := hstate₁
  cases hfails₁ with
  | some he => exact ⟨rfl, .some he⟩
  | none =>
    obtain ⟨hstate₂, hfails₂, -⟩ := walk_move (s := t.turn) (p := .second) ⟨rfl, (hfits rfl).apart⟩ h
    dsimp only
    rw [State.turn_move]
    generalize walk t.turn ls = w₂, walk (t.turn.move m) ls = w₂' at hstate₂ hfails₂ ⊢
    obtain ⟨u, e⟩ := w₂
    obtain ⟨u', e'⟩ := w₂'
    obtain rfl : u' = u.move m := hstate₂
    cases hfails₂ with
    | some he => exact ⟨rfl, .some he⟩
    | none =>
      refine ⟨?_, .none⟩
      dsimp only
      rw [State.note_summary_move]
      simp [State.note, State.move, Note.move]

end Mc6809
