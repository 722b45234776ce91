import Mc6809.Assembly.Program
import Mc6809.Proofs.Assembly.Encoding

/-!
# What actions and statements do

The rules for actions (`Action.Does`), for the label of a statement (`State.Labels`) and for whole statements
(`Statement.Does`).  An action or a statement succeeds exactly if a rule applies to it (`Action.run_eq_ok`,
`Statement.run_eq_ok`), so everything that is kept by a run is read off the rules.
-/

namespace Mc6809

open Assemble

namespace State

/-- The state with one more label, at the program counter. -/
def addLabel (s : State) (name : String) (place : Token) : State :=
  { s with symbols := { s.symbols with labels := s.symbols.labels ++ [⟨name, s.pc, some place.location⟩] } }

/-- The state with one more constant. -/
def addConstant (s : State) (name : String) (place : Token) (n : Int) : State :=
  { s with
    symbols := { s.symbols with constants := s.symbols.constants ++ [⟨name, n, some place.location⟩] } }

end State

theorem Cell.length_bytes (cell : Cell) (n n' : Int) : (cell.bytes n).length = (cell.bytes n').length := by
  cases cell <;> rfl

/-- What an action does to a state. -/
inductive Action.Does (s : State) : Action → State → Prop
  | define {name : String} {place : Token} {e : Expr} (h : (s.value e).settled = true)
      (hn : s.symbols.constants.binding? name = none) :
      Does s (.define name place e)
        ((s.addConstant name place (s.value e).total).note (.constant name (s.value e).total))
  | origin {e : Expr} {n : Int} (h : s.Bounded true .origin e n) :
      Does s (.origin e) (State.note (.origin n) { s with pc := n })
  | page {e : Expr} {n : Int} (h : s.Bounded true .page e n) :
      Does s (.page e) (State.note (.page n) { s with dp := n })
  | reserve {e : Expr} {n : Int} (h : s.Bounded true .reservation e n) :
      Does s (.reserve e) (s.emit (List.replicate n.toNat (lowByte 0)))
  | reserveOne {place : Token} {e : Expr} {n : Int} (h : s.Bounded true .variableSize e n)
      (hm : ¬Bounds.maxBlock < n * 1) :
      Does s (.reserveMany place e none) (s.emit (List.replicate (n * 1).toNat (lowByte 0)))
  | reserveMany {place : Token} {size count : Expr} {n k : Int} (h : s.Bounded true .variableSize size n)
      (hk : s.Bounded true .variableCount count k) (hm : ¬Bounds.maxBlock < n * k) :
      Does s (.reserveMany place size (some count)) (s.emit (List.replicate (n * k).toNat (lowByte 0)))
  | fill {e count : Expr} {n k : Int} (h : s.Bounded false .fillValue e n)
      (hk : s.Bounded true .fillCount count k) :
      Does s (.fill e count) (s.emit (List.replicate k.toNat (lowByte n)))
  | check {e : Expr} {b : Bounds} {required : Bool} {n : Int} (h : s.Bounded required b e n) :
      Does s (.check e b required) s
  | text {cell : Cell} {t : String} {place : Token} (h : ∀ c ∈ t.toList, c.toNat ≤ 0xFF) :
      Does s (.text cell t place) (s.emit (t.toList.flatMap fun c => cell.bytes c.toNat))
  | value {cell : Cell} {e : Expr} {n : Int} (h : s.Bounded false cell.bounds e n) :
      Does s (.value cell e) (s.emit (cell.bytes n))
  | terminator (d : Directive) (place : Token) :
      Does s (.terminator d place) (s.note (.terminator d place.line))
  | instruct {m : Mnemonic} {mnemonic : Token} {i : Instruction} {next : Nat} {ws : List (Int × Int)}
      {mi : Machine.Instruction} (h : i.Encodes m mnemonic.index s ws mi) :
      Does s (.instruct m mnemonic i next) (State.emit mi.bytes { s with widths := ws })
  | stop : Does s .stop { s with ended := true }

/-! ### Actions follow the rules -/

section Action

variable {s s' : State}

private theorem defineConstant_eq_ok {name : String} {place : Token} {e : Expr} :
    defineConstant name place e s = .ok () s' ↔ Action.Does s (.define name place e) s' := by
  rw [defineConstant, bind_eq_ok]
  simp only [evaluate_eq_ok]
  constructor
  · rintro ⟨v, t, ⟨ht, hv, ha⟩, h⟩
    subst t v
    rw [get_bind] at h
    rcases hn : s.symbols.constants.binding? name with _ | old
    · simp only [Symbols.defineConstant, Bindings.define, hn, Except.map, bind_eq_ok, set_eq_ok, note_eq_ok] at h
      obtain ⟨_, _, rfl, rfl⟩ := h
      exact .define (ha (.inl rfl)) hn
    · simp only [Symbols.defineConstant, Bindings.define, hn, Except.map] at h
      exact absurd h refuse_bind_ne_ok
  · intro h
    cases h with
    | define hs hn =>
      refine ⟨_, _, ⟨rfl, rfl, fun _ => hs⟩, ?_⟩
      rw [get_bind]
      simp only [Symbols.defineConstant, Bindings.define, hn, Except.map, bind_eq_ok, set_eq_ok, note_eq_ok]
      exact ⟨(), _, rfl, rfl⟩

private theorem emitText_eq_ok {cell : Cell} {t : String} {place : Token} :
    emitText cell t place s = .ok () s' ↔ Action.Does s (.text cell t place) s' := by
  unfold emitText
  constructor
  · intro h
    rcases hc : t.toList.find? fun c => 0xFF < c.toNat with _ | c
    · simp only [hc, emit_eq_ok] at h
      subst h
      refine .text fun c hm => ?_
      have := List.find?_eq_none.1 hc c hm
      simpa using this
    · simp only [hc] at h
      exact absurd h refuse_ne_ok
  · intro h
    cases h with
    | text h =>
      have hc : (t.toList.find? fun c => 0xFF < c.toNat) = none := by
        rw [List.find?_eq_none]
        intro c hm
        simpa using h c hm
      simp only [hc, emit_eq_ok]

private theorem reserveVariables_eq_ok {place : Token} {size : Expr} {count : Option Expr} :
    reserveVariables place size count s = .ok () s' ↔ Action.Does s (.reserveMany place size count) s' := by
  have key : ∀ n k : Int, ((if Bounds.maxBlock < n * k then
      refuse (.blockTooLarge (n * k)) place (count.getD size).next else emitBlock 0 (n * k)) : Assemble Unit) s =
        .ok () s' ↔ ¬Bounds.maxBlock < n * k ∧ s' = s.emit (List.replicate (n * k).toNat (lowByte 0)) := by
    intro n k
    split
    · next h => simp [refuse_ne_ok, h]
    · next h =>
      simp only [h, not_false_eq_true, true_and]
      exact emit_eq_ok
  unfold reserveVariables
  cases count with
  | none =>
    rw [bind_eq_ok]
    simp only [bounded_eq_ok]
    constructor
    · rintro ⟨n, _, ⟨rfl, hn⟩, h⟩
      obtain ⟨hm, rfl⟩ := (key n 1).1 h
      exact .reserveOne hn hm
    · intro h
      cases h with
      | reserveOne hn hm => exact ⟨_, _, ⟨rfl, hn⟩, (key _ 1).2 ⟨hm, rfl⟩⟩
  | some count =>
    simp only [bind_eq_ok, bounded_eq_ok]
    constructor
    · rintro ⟨n, _, ⟨rfl, hn⟩, k, _, ⟨rfl, hk⟩, h⟩
      obtain ⟨hm, rfl⟩ := (key n k).1 h
      exact .reserveMany hn hk hm
    · intro h
      cases h with
      | reserveMany hn hk hm => exact ⟨_, _, ⟨rfl, hn⟩, _, _, ⟨rfl, hk⟩, (key _ _).2 ⟨hm, rfl⟩⟩

private theorem discard_eq_ok {α : Type} {x : Assemble α} :
    (discard x : Assemble Unit) s = .ok () s' ↔ ∃ a, x s = .ok a s' := by
  have hx : (discard x : Assemble Unit) = x >>= fun _ => pure () := rfl
  rw [hx, bind_eq_ok]
  constructor
  · rintro ⟨a, t, h, ht⟩
    obtain ⟨-, rfl⟩ := pure_eq_ok.1 ht
    exact ⟨a, h⟩
  · rintro ⟨a, h⟩
    exact ⟨a, s', h, rfl⟩

/-- An action succeeds exactly if a rule applies to it. -/
theorem Action.run_eq_ok {a : Action} : a.run s = .ok () s' ↔ a.Does s s' := by
  cases a with
  | define name place e => exact defineConstant_eq_ok
  | text cell t place => exact emitText_eq_ok
  | reserveMany place size count => exact reserveVariables_eq_ok
  | origin e =>
    simp only [Action.run, setOrigin, bind_eq_ok, bounded_eq_ok, modify_eq_ok, note_eq_ok]
    constructor
    · rintro ⟨n, _, ⟨rfl, h⟩, _, _, rfl, rfl⟩
      exact .origin h
    · intro h
      cases h with
      | origin h => exact ⟨_, _, ⟨rfl, h⟩, (), _, rfl, rfl⟩
  | page e =>
    simp only [Action.run, setPage, bind_eq_ok, bounded_eq_ok, modify_eq_ok, note_eq_ok]
    constructor
    · rintro ⟨n, _, ⟨rfl, h⟩, _, _, rfl, rfl⟩
      exact .page h
    · intro h
      cases h with
      | page h => exact ⟨_, _, ⟨rfl, h⟩, (), _, rfl, rfl⟩
  | reserve e =>
    simp only [Action.run, emitBlock, bind_eq_ok, bounded_eq_ok, emit_eq_ok]
    constructor
    · rintro ⟨n, _, ⟨rfl, h⟩, rfl⟩
      exact .reserve h
    · intro h
      cases h with
      | reserve h => exact ⟨_, _, ⟨rfl, h⟩, rfl⟩
  | fill e count =>
    simp only [Action.run, fillBlock, emitBlock, bind_eq_ok, bounded_eq_ok, emit_eq_ok]
    constructor
    · rintro ⟨n, _, ⟨rfl, h⟩, k, _, ⟨rfl, hk⟩, rfl⟩
      exact .fill h hk
    · intro h
      cases h with
      | fill h hk => exact ⟨_, _, ⟨rfl, h⟩, _, _, ⟨rfl, hk⟩, rfl⟩
  | check e b required =>
    simp only [Action.run, discard_eq_ok, bounded_eq_ok]
    constructor
    · rintro ⟨n, rfl, h⟩
      exact .check h
    · intro h
      cases h with
      | check h => exact ⟨_, rfl, h⟩
  | value cell e =>
    simp only [Action.run, bind_eq_ok, bounded_eq_ok, emit_eq_ok]
    constructor
    · rintro ⟨n, _, ⟨rfl, h⟩, rfl⟩
      exact .value h
    · intro h
      cases h with
      | value h => exact ⟨_, _, ⟨rfl, h⟩, rfl⟩
  | terminator d place =>
    refine note_eq_ok.trans ⟨fun h => h ▸ .terminator d place, ?_⟩
    rintro ⟨⟩
    rfl
  | instruct m mnemonic i next =>
    refine Instruction.assemble_eq_ok.trans ⟨?_, ?_⟩
    · rintro ⟨ws, mi, h, rfl⟩
      exact .instruct h
    · intro h
      cases h with
      | instruct h => exact ⟨_, _, h, rfl⟩
  | stop =>
    refine modify_eq_ok.trans ⟨fun h => h ▸ .stop, ?_⟩
    rintro ⟨⟩
    rfl

end Action

/-- What actions do one after the other. -/
inductive Action.DoAll : State → List Action → State → Prop
  | nil (s : State) : DoAll s [] s
  | cons {s t u : State} {a : Action} {as : List Action} (h : a.Does s t) (hs : DoAll t as u) : DoAll s (a :: as) u

/-- What the label of a statement does: the first pass binds it, the second one finds it where it is. -/
inductive State.Labels (s : State) : Option (String × Token) → State → Prop
  | absent : Labels s none s
  | bound {name : String} {place : Token} (hp : s.pass = .first) (hn : s.symbols.labels.binding? name = none) :
      Labels s (some (name, place)) (s.addLabel name place)
  | found {name : String} {place : Token} (hp : s.pass = .second)
      (hv : s.symbols.labels.value? name = some s.pc) : Labels s (some (name, place)) s

/-- The state with the row of a statement that started in the state `before`. -/
def State.record (before : State) (line : Nat) (s : State) : State :=
  { s with
    listing := s.listing.push
      ⟨before.pc, (s.output.extract before.output.size s.output.size).toList, line⟩ }

/-- What a statement does. The second pass skips definitions of constants and records a row. -/
inductive Statement.Does (s : State) (st : Statement) : State → Prop
  | first {t u : State} (hp : s.pass = .first) (hl : s.Labels st.label t) (ha : Action.DoAll t st.actions u)
      (hf : st.fault = none) : Does s st u
  | second {t u : State} (hp : s.pass = .second) (hc : st.constants = false) (hl : s.Labels st.label t)
      (ha : Action.DoAll t st.actions u) (hf : st.fault = none) : Does s st (s.record st.first.line u)
  | skipped {t : State} (hp : s.pass = .second) (hc : st.constants = true) (hl : s.Labels st.label t) :
      Does s st (s.record st.first.line t)

/-! ### Statements follow the rules -/

section Statement

variable {s s' : State}

theorem Action.forM_run_eq_ok {as : List Action} : as.forM Action.run s = .ok () s' ↔ DoAll s as s' := by
  induction as generalizing s with
  | nil =>
    refine pure_eq_ok.trans ⟨fun h => h.2 ▸ .nil s', ?_⟩
    rintro ⟨⟩
    exact ⟨rfl, rfl⟩
  | cons a as ih =>
    show (a.run >>= fun _ => as.forM Action.run) s = _ ↔ _
    rw [bind_eq_ok]
    constructor
    · rintro ⟨_, t, h, hs⟩
      exact .cons (Action.run_eq_ok.1 h) (ih.1 hs)
    · intro h
      cases h with
      | cons h hs => exact ⟨(), _, Action.run_eq_ok.2 h, ih.2 hs⟩

private theorem runActions_eq_ok {as : List Action} {fault : Option Fault} :
    runActions as fault s = .ok () s' ↔ Action.DoAll s as s' ∧ fault = none := by
  unfold runActions
  rw [bind_eq_ok]
  constructor
  · rintro ⟨_, t, h, hf⟩
    cases fault with
    | none =>
      obtain ⟨-, rfl⟩ := pure_eq_ok.1 hf
      exact ⟨Action.forM_run_eq_ok.1 h, rfl⟩
    | some f => exact absurd hf fail_ne_ok
  · rintro ⟨h, rfl⟩
    exact ⟨(), s', Action.forM_run_eq_ok.2 h, rfl⟩

private theorem bindLabel_eq_ok {name : String} {place : Token} :
    bindLabel name place s = .ok () s' ↔ s.Labels (some (name, place)) s' := by
  rw [bindLabel, get_bind]
  cases s with
  | mk base pass pc dp symbols widths output listing ended notes placeholder =>
    cases pass with
    | first =>
      rcases hn : symbols.labels.binding? name with _ | old
      · simp only [Symbols.defineLabel, Bindings.define, hn, Except.map, set_eq_ok]
        constructor
        · rintro rfl
          exact .bound rfl hn
        · intro h
          cases h with
          | bound => rfl
          | found hp => cases hp
      · simp only [Symbols.defineLabel, Bindings.define, hn, Except.map]
        refine ⟨fun h => absurd h refuse_ne_ok, ?_⟩
        intro h
        cases h with
        | bound _ hn' => rw [hn] at hn'; cases hn'
        | found hp => cases hp
    | second =>
      rcases hv : symbols.labels.value? name with _ | address
      · constructor
        · intro h
          cases h
        · intro h
          cases h with
          | bound hp => cases hp
          | found _ hv' => rw [hv] at hv'; cases hv'
      · by_cases ha : address = pc
        · subst ha
          simp only [↓reduceIte, pure_eq_ok]
          constructor
          · rintro ⟨-, rfl⟩
            exact .found rfl hv
          · intro h
            cases h with
            | bound hp => cases hp
            | found => trivial
        · simp only [ha, ↓reduceIte]
          refine ⟨fun h => absurd h refuse_ne_ok, ?_⟩
          intro h
          cases h with
          | bound hp => cases hp
          | found _ hv' =>
            rw [hv] at hv'
            cases hv'
            exact absurd rfl ha

theorem label_eq_ok {label : Option (String × Token)} :
    (match label with
      | some (name, place) => bindLabel name place
      | none => pure () : Assemble Unit) s = .ok () s' ↔ s.Labels label s' := by
  rcases label with _ | ⟨name, place⟩
  · refine pure_eq_ok.trans ⟨fun h => h.2 ▸ .absent, ?_⟩
    rintro ⟨⟩
    exact ⟨rfl, rfl⟩
  · exact bindLabel_eq_ok

/-- The steps of a statement in sequence. -/
theorem Statement.run_eq_bind {st : Statement} :
    st.run s = ((match st.label with
      | some (name, place) => bindLabel name place
      | none => pure ()) >>= fun _ =>
        (if (st.constants && s.pass = .second) = true then pure ()
          else runActions st.actions st.fault) >>= fun _ =>
          if s.pass = .second then modify (s.record st.first.line) else pure () : Assemble Unit) s := by
  rw [Statement.run, get_bind]
  by_cases hc : (st.constants && s.pass = .second) = true
  · rw [if_pos hc]
    simp only [hc, ↓reduceIte]
    rcases st.label with _ | ⟨name, place⟩ <;> rfl
  · rw [if_neg hc]
    simp only [hc]
    rcases st.label with _ | ⟨name, place⟩ <;> rfl

/-- A statement succeeds exactly if a rule applies to it. -/
theorem Statement.run_eq_ok {st : Statement} : st.run s = .ok () s' ↔ st.Does s s' := by
  rw [run_eq_bind, bind_eq_ok]
  simp only [bind_eq_ok]
  constructor
  · rintro ⟨_, t, hl, _, u, ha, hr⟩
    replace hl := label_eq_ok.1 hl
    by_cases hp : s.pass = .second
    · rw [if_pos hp, modify_eq_ok] at hr
      subst hr
      by_cases hc : st.constants = true
      · rw [if_pos (by simp [hc, hp]), pure_eq_ok] at ha
        obtain ⟨-, rfl⟩ := ha
        exact .skipped hp hc hl
      · rw [if_neg (by simp [hc]), runActions_eq_ok] at ha
        exact .second hp (by simpa using hc) hl ha.1 ha.2
    · rw [if_neg hp, pure_eq_ok] at hr
      obtain ⟨-, rfl⟩ := hr
      rw [if_neg (by simp [hp]), runActions_eq_ok] at ha
      exact .first (by cases h : s.pass <;> simp_all) hl ha.1 ha.2
  · intro h
    cases h with
    | first hp hl ha hf =>
      refine ⟨(), _, label_eq_ok.2 hl, (), s', ?_, ?_⟩
      · rw [if_neg (by simp [hp]), runActions_eq_ok]
        exact ⟨ha, hf⟩
      · rw [if_neg (by simp [hp]), pure_eq_ok]
        exact ⟨rfl, rfl⟩
    | @second t u hp hc hl ha hf =>
      refine ⟨(), t, label_eq_ok.2 hl, (), u, ?_, ?_⟩
      · rw [if_neg (by simp [hc]), runActions_eq_ok]
        exact ⟨ha, hf⟩
      · rw [if_pos hp, modify_eq_ok]
    | @skipped t hp hc hl =>
      refine ⟨(), t, label_eq_ok.2 hl, (), t, ?_, ?_⟩
      · rw [if_pos (by simp [hp, hc]), pure_eq_ok]
        exact ⟨rfl, rfl⟩
      · rw [if_pos hp, modify_eq_ok]

end Statement

end Mc6809
