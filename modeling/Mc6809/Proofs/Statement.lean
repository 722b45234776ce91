import Mc6809.Statement.Reader

/-!
# The actions of a statement

A statement that defines constants asks for definitions only.  Any other one asks for a single action or for the
items of a data directive (`Action.Group`).  So an instruction, an origin or an end is the only action of its
statement (`Action.Group.eq_singleton`), and an instruction was read from a mnemonic of the line
(`Line.instruct_mem`).
-/

namespace Mc6809

namespace Action

/-- The name of the constant that an action defines. -/
def defined? : Action → Option String
  | define name _ _ => some name
  | _ => none

/-- Items of data directives. -/
def isItem : Action → Bool
  | text _ _ _ | value _ _ | terminator _ _ => true
  | _ => false

def isInstruct : Action → Bool
  | instruct _ _ _ _ => true
  | _ => false

def isOrigin : Action → Bool
  | origin _ => true
  | _ => false

/-- The action that ends the source. -/
def isStop : Action → Bool
  | stop => true
  | _ => false

/-- The actions that a statement can ask for, depending on whether it defines constants. -/
inductive Group : Bool → List Action → Prop
  | constants {as : List Action} (h : ∀ a ∈ as, a.defined?.isSome = true) : Group true as
  | single {a : Action} (h : a.defined? = none) : Group false [a]
  | items {as : List Action} (h : ∀ a ∈ as, a.isItem = true) : Group false as

private theorem Group.nil (c : Bool) : Group c [] := by
  cases c with
  | true => exact .constants (by simp)
  | false => exact .items (by simp)

/-- An action that neither defines a constant nor is an item stands alone. -/
theorem Group.eq_singleton {c : Bool} {as : List Action} {a : Action} (h : Group c as) (ha : a ∈ as)
    (hd : a.defined? = none) (hi : a.isItem = false) : c = false ∧ as = [a] := by
  cases h with
  | constants h =>
    have := h a ha
    rw [hd] at this
    cases this
  | single =>
    rw [List.mem_singleton] at ha
    exact ⟨rfl, by rw [ha]⟩
  | items h =>
    have := h a ha
    rw [hi] at this
    cases this

/-- Neither definitions of constants nor data items have instructions among them. -/
private theorem not_isInstruct_of_isItem {a : Action} (h : a.isItem = true) : a.isInstruct = false := by
  cases a <;> simp_all [isItem, isInstruct]

private theorem not_isInstruct_of_defined {a : Action} (h : a.defined?.isSome = true) : a.isInstruct = false := by
  cases a <;> simp_all [defined?, isInstruct]

private theorem defined?_eq_none_of_isItem {a : Action} (h : a.isItem = true) : a.defined? = none := by
  cases a <;> simp_all [defined?, isItem]

theorem not_isStop_of_defined {a : Action} (h : a.defined?.isSome = true) : a.isStop = false := by
  cases a <;> simp_all [defined?, isStop]

/-- An instruction stands alone. -/
theorem Group.instruct_cases {c : Bool} {as : List Action} (h : Group c as) :
    (∀ a ∈ as, a.isInstruct = false) ∨ ∃ m mnemonic i next, as = [.instruct m mnemonic i next] := by
  by_cases hi : ∀ a ∈ as, a.isInstruct = false
  · exact .inl hi
  · obtain ⟨a, ha, hia⟩ : ∃ a ∈ as, a.isInstruct = true := by simpa using hi
    cases a with
    | instruct m mnemonic i next => exact .inr ⟨m, mnemonic, i, next, (h.eq_singleton ha rfl rfl).2⟩
    | _ => cases hia

theorem Group.defined?_eq_none {c : Bool} {as : List Action} (h : Group c as) (hc : c = false) :
    ∀ a ∈ as, a.defined? = none := by
  cases h with
  | constants => cases hc
  | single h => simpa using h
  | items h => exact fun a ha => defined?_eq_none_of_isItem (h a ha)

theorem Group.defined_of_constants {c : Bool} {as : List Action} (h : Group c as) (hc : c = true) :
    ∀ a ∈ as, a.defined?.isSome = true := by
  cases h with
  | constants h => exact h
  | single => cases hc
  | items => cases hc

end Action

namespace Script

variable {stop place : Token} {ts : List Token}

/-! ### Directives -/

private theorem single_actions (stop : Token) (ts : List Token) (action : Expr → Action) :
    (single stop ts action).actions = [] ∨ ∃ e, (single stop ts action).actions = [action e] := by
  unfold single
  split
  · exact .inl rfl
  · next e rest _ => exact .inr ⟨e, rfl⟩

/-- A directive with two values asks for one action at most, whether or not its second value can be read. -/
private theorem actions_of_two_values (place stop : Token) (ts : List Token) {script : Script}
    (h : script ∈ [readVariables place stop ts, readFill stop ts]) :
    script.actions = [] ∨ ∃ a, script.actions = [a] ∧ a.defined? = none ∧ a.isInstruct = false := by
  simp only [List.mem_cons, List.not_mem_nil, or_false, readVariables, readFill] at h
  rcases h with rfl | rfl
  all_goals
    split
    · exact .inl rfl
    · split
      · exact .inr ⟨_, rfl, rfl, rfl⟩
      · split
        · exact .inr ⟨_, rfl, rfl, rfl⟩
        · exact .inr ⟨_, rfl, rfl, rfl⟩

private theorem isItem_of_readItem {cell : Cell} {drops : Bool} {d : Directive} {a : Action} {rest : List Token}
    (h : readItem cell drops d place stop ts = .ok (a, rest)) : a.isItem = true := by
  unfold readItem at h
  split at h
  · cases h
  · next t ts =>
    split at h
    · cases h
      rfl
    · split at h
      · cases h
        rfl
      · cases he : Expr.read stop (t :: ts) with
        | error f => rw [he] at h; cases h
        | ok p => rw [he] at h; cases h; rfl

private theorem isItem_of_mem_readItems {cell : Cell} {drops : Bool} {d : Directive} {afterText : Bool} :
    ∀ a ∈ (readItems cell drops d place stop afterText ts).actions, a.isItem = true := by
  fun_induction readItems cell drops d place stop afterText ts with
  | case1 afterText ts f h => simp
  | case2 afterText ts a rest h hc =>
    intro b hb
    rw [List.mem_singleton] at hb
    exact hb ▸ isItem_of_readItem h
  | case3 afterText ts a rest h rest' hc ih =>
    intro b hb
    rcases List.mem_cons.1 hb with rfl | hb
    · exact isItem_of_readItem h
    · exact ih b hb

private theorem defined_of_mem_readConstants :
    ∀ a ∈ (readConstants stop ts).actions, a.defined?.isSome = true := by
  fun_induction readConstants stop ts with
  | case1 => simp
  | case2 => simp
  | case3 => simp
  | case4 => simp [Action.defined?]
  | case5 t rest name _ rest' _ e rest'' _ rest''' _ ih =>
    intro b hb
    rcases List.mem_cons.1 hb with rfl | hb
    · rfl
    · exact ih b hb
  | case6 => simp

private theorem defined_of_mem_readNamed {name : String} :
    ∀ a ∈ (readNamed name place stop ts).actions, a.defined?.isSome = true := by
  unfold readNamed
  split
  · split
    · simp
    · split
      · simp [Action.defined?]
      · intro b hb
        rcases List.mem_cons.1 hb with rfl | hb
        · rfl
        · exact defined_of_mem_readConstants b hb
  · next rest _ _ =>
    intro b hb
    rcases single_actions stop rest (.define name place) with h | ⟨e, h⟩
    · rw [h] at hb
      cases hb
    · rw [h, List.mem_singleton] at hb
      exact hb ▸ rfl
  · simp

private theorem group_single {as : List Action}
    (h : as = [] ∨ ∃ a, as = [a] ∧ a.defined? = none ∧ a.isInstruct = false) :
    Action.Group false as ∧ ∀ a ∈ as, a.isInstruct = false := by
  rcases h with rfl | ⟨a, rfl, hd, hi⟩
  · exact ⟨.nil _, by simp⟩
  · exact ⟨.single hd, by simpa using hi⟩

private theorem group_of_single {action : Expr → Action} (hd : ∀ e, (action e).defined? = none)
    (hi : ∀ e, (action e).isInstruct = false) :
    Action.Group false (single stop ts action).actions ∧
      ∀ a ∈ (single stop ts action).actions, a.isInstruct = false := by
  apply group_single
  rcases single_actions stop ts action with h | ⟨e, h⟩
  · exact .inl h
  · exact .inr ⟨_, h, hd e, hi e⟩

private theorem group_of_readItems {cell : Cell} {drops : Bool} {d : Directive} :
    Action.Group false (readItems cell drops d place stop false ts).actions ∧
      ∀ a ∈ (readItems cell drops d place stop false ts).actions, a.isInstruct = false :=
  ⟨.items isItem_of_mem_readItems, fun a ha => Action.not_isInstruct_of_isItem (isItem_of_mem_readItems a ha)⟩

private theorem group_of_readConstants :
    Action.Group true (readConstants stop ts).actions ∧
      ∀ a ∈ (readConstants stop ts).actions, a.isInstruct = false :=
  ⟨.constants defined_of_mem_readConstants,
    fun a ha => Action.not_isInstruct_of_defined (defined_of_mem_readConstants a ha)⟩

/-- A directive asks for no instructions. -/
private theorem group_of_readDirective (d : Directive) :
    Action.Group d.definesConstants (readDirective d place stop ts).actions ∧
      ∀ a ∈ (readDirective d place stop ts).actions, a.isInstruct = false := by
  cases d with
  | const => exact group_of_readConstants
  | equ => exact group_of_readConstants
  | org => exact group_of_single (fun _ => rfl) fun _ => rfl
  | setdp => exact group_of_single (fun _ => rfl) fun _ => rfl
  | direct => exact group_of_single (fun _ => rfl) fun _ => rfl
  | rmb => exact group_of_single (fun _ => rfl) fun _ => rfl
  | ds => exact group_of_single (fun _ => rfl) fun _ => rfl
  | stop => exact ⟨.single rfl, by simp [readDirective, Action.isInstruct]⟩
  | var => exact group_single (actions_of_two_values place stop ts (by simp [readDirective]))
  | fill => exact group_single (actions_of_two_values place stop ts (by simp [readDirective]))
  | db => exact group_of_readItems
  | fcb => exact group_of_readItems
  | byteList => exact group_of_readItems
  | fcc => exact group_of_readItems
  | dw => exact group_of_readItems
  | fdb => exact group_of_readItems
  | wordList => exact group_of_readItems

/-! ### Instructions -/

private theorem readInstruction_actions {m : Mnemonic} {mnemonic : Token} :
    (readInstruction m mnemonic stop ts).actions = [] ∨
      ∃ i rest, Instruction.read m mnemonic stop ts = .ok (i, rest) ∧
        (readInstruction m mnemonic stop ts).actions = [.instruct m mnemonic i (nextToken stop rest).index] := by
  unfold readInstruction
  split
  · exact .inl rfl
  · next i rest h => exact .inr ⟨i, rest, h, rfl⟩

end Script

namespace Statement

private theorem group_of_readBody (stop : Token) (ts : List Token) :
    Action.Group (readBody stop ts).1 (readBody stop ts).2.actions := by
  unfold readBody
  split
  · exact .nil _
  · split
    · exact (Script.group_of_readDirective _).1
    · rcases Script.readInstruction_actions with h | ⟨i, rest, _, h⟩
      · rw [h]
        exact .nil _
      · rw [h]
        exact .single rfl
    · exact .constants Script.defined_of_mem_readNamed
    · exact .nil _

private theorem instruct_mem_readBody {stop : Token} {ts : List Token} {m : Mnemonic} {mnemonic : Token}
    {i : Instruction} {next : Nat} (h : .instruct m mnemonic i next ∈ (readBody stop ts).2.actions) :
    ∃ us rest, ts = mnemonic :: us ∧ mnemonic.lexeme = .opcode m ∧
      Instruction.read m mnemonic stop us = .ok (i, rest) := by
  unfold readBody at h
  split at h
  · cases h
  · next t us =>
    split at h
    · have := (Script.group_of_readDirective _).2 _ h
      cases this
    · next m' hm =>
      rcases Script.readInstruction_actions with ha | ⟨j, rest, hr, ha⟩
      · rw [ha] at h
        cases h
      · rw [ha, List.mem_singleton] at h
        cases h
        exact ⟨us, rest, rfl, hm, hr⟩
    · have := Action.not_isInstruct_of_defined (Script.defined_of_mem_readNamed _ h)
      cases this
    · cases h

end Statement

namespace Statement

/-- The expression of a statement that sets the origin. -/
def origin? (st : Statement) : Option Expr :=
  match st.actions with
  | [.origin e] => some e
  | _ => none

theorem actions_of_origin? {st : Statement} {e : Expr} (h : st.origin? = some e) : st.actions = [.origin e] := by
  unfold origin? at h
  split at h
  · next e' ha =>
    cases h
    exact ha
  · cases h

/-- Origins stand alone, so a statement that is none has none among its actions. -/
theorem isOrigin_eq_false {st : Statement} (hg : Action.Group st.constants st.actions) (h : st.origin? = none) :
    ∀ a ∈ st.actions, a.isOrigin = false := by
  intro a ha
  cases a with
  | origin e =>
    rw [origin?, (hg.eq_singleton ha rfl rfl).2] at h
    cases h
  | _ => rfl

end Statement

/-! ### Lines -/

namespace Line

/-- What a line asks for. -/
def actions (l : Line) : List Action :=
  match l.statement? with
  | some st => st.actions
  | none => []

/-- The names of the constants that a line defines. -/
def definitions (l : Line) : List String :=
  l.actions.filterMap Action.defined?

/-- Whether a line ends the source. -/
def stops (l : Line) : Bool :=
  l.actions.any Action.isStop

/-- The tokens of a line after its label, if it begins with one. -/
def operation (l : Line) : List Token :=
  match l.body with
  | [] => []
  | t :: ts =>
    match t.lexeme with
    | .label _ => ts
    | _ => t :: ts

variable {l : Line} {st : Statement}

theorem actions_of_statement? (h : l.statement? = some st) : l.actions = st.actions := by
  rw [actions, h]

theorem stops_of_statement? (h : l.statement? = some st) : l.stops = st.actions.any Action.isStop := by
  rw [stops, actions_of_statement? h]

theorem stops_of_none (h : l.statement? = none) : l.stops = false := by
  rw [stops, actions, h]
  rfl

theorem mem_definitions (h : l.statement? = some st) {name : String} :
    name ∈ l.definitions ↔ ∃ a ∈ st.actions, a.defined? = some name := by
  rw [definitions, actions_of_statement? h, List.mem_filterMap]

theorem operation_subset : ∀ t ∈ l.operation, t ∈ l.body := by
  unfold operation
  split
  · simp
  · next t ts hb =>
    rw [hb]
    split
    · exact fun u hu => List.mem_cons_of_mem _ hu
    · exact fun u hu => hu

/-- A statement is read from the tokens after its label. -/
theorem read_of_statement? (h : l.statement? = some st) :
    st.constants = (Statement.readBody l.stop l.operation).1 ∧
      st.actions = (Statement.readBody l.stop l.operation).2.actions ∧
      st.fault = (Statement.readBody l.stop l.operation).2.fault? l.stop := by
  unfold statement? at h
  split at h
  · cases h
  · next first ts hb =>
    rw [Option.some.injEq] at h
    subst h
    unfold Statement.read
    split
    · next name hn =>
      have ho : l.operation = ts := by simp only [operation, hb, hn]
      rw [ho]
      exact ⟨rfl, rfl, rfl⟩
    · next hn =>
      have ho : l.operation = first :: ts := by
        unfold operation
        rw [hb]
        dsimp only
        split
        · next name hn' => exact absurd hn' (hn name)
        · rfl
      rw [ho]
      exact ⟨rfl, rfl, rfl⟩

theorem group_of_statement? (h : l.statement? = some st) : Action.Group st.constants st.actions := by
  obtain ⟨hc, ha, -⟩ := read_of_statement? h
  rw [hc, ha]
  exact Statement.group_of_readBody l.stop l.operation

/-- The label of a statement is its first token. -/
theorem label_of_statement? (h : l.statement? = some st) :
    st.first ∈ l.body ∧
      ∀ name place, st.label = some (name, place) ↔ st.first.lexeme = .label name ∧ place = st.first := by
  unfold statement? at h
  split at h
  · cases h
  · next first ts hb =>
    rw [Option.some.injEq] at h
    subst h
    unfold Statement.read
    split
    · next name hl =>
      refine ⟨by simp [hb], fun name' place => ?_⟩
      simp only [hl, Option.some.injEq, Prod.mk.injEq, Lexeme.label.injEq, eq_comm]
    · next hl =>
      refine ⟨by simp [hb], fun name place => ?_⟩
      simp only [reduceCtorEq, false_iff, not_and]
      intro hn
      exact absurd hn (hl name)

/-- A line with a label begins with it. -/
theorem body_of_label {name : String} {place : Token} (h : l.statement? = some st)
    (hl : st.label = some (name, place)) : ∃ rest, l.body = place :: rest ∧ place.lexeme = .label name := by
  unfold statement? at h
  split at h
  · cases h
  · next first ts hb =>
    rw [Option.some.injEq] at h
    subst h
    unfold Statement.read at hl
    split at hl
    · next hn =>
      cases hl
      exact ⟨ts, hb, hn⟩
    · cases hl

/-- An instruction is the only action of its statement and was read from a mnemonic of its line. -/
theorem instruct_mem {m : Mnemonic} {mnemonic : Token} {i : Instruction} {next : Nat} (h : l.statement? = some st)
    (hi : .instruct m mnemonic i next ∈ st.actions) :
    st.constants = false ∧ st.actions = [.instruct m mnemonic i next] ∧ mnemonic ∈ l.body ∧
      ∃ us rest, Instruction.read m mnemonic l.stop us = .ok (i, rest) := by
  obtain ⟨hc, ha⟩ := (group_of_statement? h).eq_singleton hi rfl rfl
  rw [(read_of_statement? h).2.1] at hi
  obtain ⟨us, rest, hus, -, hr⟩ := Statement.instruct_mem_readBody hi
  exact ⟨hc, ha, operation_subset _ (by simp [hus]), us, rest, hr⟩

end Line

end Mc6809
