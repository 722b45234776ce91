import Mc6809.Proofs.Assembly.Effect
import Mc6809.Proofs.Statement
import Mc6809.Proofs.Symbols

/-!
# What steps leave alone

No action changes the pass, the labels or the listing (`State.Frame`); only definitions touch the symbols and only
instructions the recorded widths.  A statement of the second pass leaves the symbols as they are
(`Statement.Does.symbols_of_second`), and one of the first pass keeps the values of all symbols unless a constant
takes the name of a label (`Statement.Does.keptIn`).
-/

namespace Mc6809

/-- Two states agree in what no action changes. -/
structure State.Frame (s t : State) : Prop where
  base : t.base = s.base
  pass : t.pass = s.pass
  placeholder : t.placeholder = s.placeholder
  labels : t.symbols.labels = s.symbols.labels
  listing : t.listing = s.listing

namespace State.Frame

private theorem refl (s : State) : s.Frame s :=
  ⟨rfl, rfl, rfl, rfl, rfl⟩

private theorem trans {s t u : State} (h : s.Frame t) (h' : t.Frame u) : s.Frame u :=
  ⟨h'.base.trans h.base, h'.pass.trans h.pass, h'.placeholder.trans h.placeholder, h'.labels.trans h.labels,
    h'.listing.trans h.listing⟩

end State.Frame

variable {s t u : State} {a : Action} {as : List Action}

/-! ### Actions -/

namespace Action

theorem Does.frame (h : a.Does s t) : s.Frame t := by
  cases h <;> exact ⟨rfl, rfl, rfl, rfl, rfl⟩

theorem Does.symbols_of_defined? (h : a.Does s t) (hd : a.defined? = none) : t.symbols = s.symbols := by
  cases h with
  | define => cases hd
  | _ => rfl

private theorem Does.widths_of_isInstruct (h : a.Does s t) (hi : a.isInstruct = false) : t.widths = s.widths := by
  cases h with
  | instruct => cases hi
  | _ => rfl

private theorem Does.ended_eq (h : a.Does s t) : t.ended = (s.ended || a.isStop) := by
  cases h with
  | stop => exact (Bool.or_true _).symm
  | _ => exact (Bool.or_false _).symm

theorem DoAll.frame (h : DoAll s as t) : s.Frame t := by
  induction h with
  | nil s => exact .refl s
  | cons h _ ih => exact h.frame.trans ih

theorem DoAll.symbols_of_defined? (h : DoAll s as t) (hd : ∀ a ∈ as, a.defined? = none) :
    t.symbols = s.symbols := by
  induction h with
  | nil => rfl
  | cons h _ ih =>
    rw [ih fun a ha => hd a (List.mem_cons_of_mem _ ha), h.symbols_of_defined? (hd _ (by simp))]

theorem DoAll.widths_of_isInstruct (h : DoAll s as t) (hi : ∀ a ∈ as, a.isInstruct = false) :
    t.widths = s.widths := by
  induction h with
  | nil => rfl
  | cons h _ ih =>
    rw [ih fun a ha => hi a (List.mem_cons_of_mem _ ha), h.widths_of_isInstruct (hi _ (by simp))]

private theorem DoAll.ended_eq (h : DoAll s as t) : t.ended = (s.ended || as.any isStop) := by
  induction h with
  | nil => simp
  | cons h _ ih => rw [ih, h.ended_eq, List.any_cons, Bool.or_assoc]

theorem DoAll.singleton (h : DoAll s [a] t) : a.Does s t := by
  cases h with
  | cons h hs =>
    cases hs
    exact h

/-- Definitions keep the values of all symbols if none of their names is that of a label. -/
private theorem DoAll.keptIn (h : DoAll s as t)
    (hn : ∀ a ∈ as, ∀ name, a.defined? = some name → t.symbols.labels.value? name = none) :
    s.symbols.KeptIn t.symbols := by
  induction h with
  | nil s => exact .refl _
  | @cons s t u a as h hs ih =>
    refine .trans ?_ (ih fun b hb => hn b (List.mem_cons_of_mem _ hb))
    rcases hd : a.defined? with _ | name
    · rw [h.symbols_of_defined? hd]
      exact .refl _
    · cases h with
      | define =>
        cases hd
        have hl := hn _ (List.mem_cons_self ..) name rfl
        rw [hs.frame.labels] at hl
        exact State.keptIn_addConstant (s := s) hl _ _
      | _ => cases hd

end Action

/-! ### Labels -/

namespace State.Labels

variable {label : Option (String × Token)}

private theorem keptIn (h : s.Labels label t) : s.symbols.KeptIn t.symbols := by
  cases h with
  | absent => exact .refl _
  | bound => exact s.keptIn_addLabel _ _
  | found => exact .refl _

theorem eq_of_second (h : s.Labels label t) (hp : s.pass = .second) : t = s := by
  cases h with
  | absent => rfl
  | bound hp' => rw [hp] at hp'; cases hp'
  | found => rfl

private theorem base (h : s.Labels label t) : t.base = s.base := by
  cases h <;> rfl

/-- Apart from the label itself nothing changes. -/
theorem same (h : s.Labels label t) :
    t.pass = s.pass ∧ t.pc = s.pc ∧ t.dp = s.dp ∧ t.ended = s.ended ∧ t.widths = s.widths ∧
      t.symbols.constants = s.symbols.constants := by
  cases h <;> exact ⟨rfl, rfl, rfl, rfl, rfl, rfl⟩

/-- Labels that are there keep their addresses. -/
private theorem value? (h : s.Labels label t) {name : String} {v : Int} (hv : s.symbols.labels.value? name = some v) :
    t.symbols.labels.value? name = some v := by
  cases h with
  | absent => exact hv
  | bound => exact Bindings.value?_append_of_some hv _
  | found => exact hv

/-- The first pass gives a label the address of its statement. -/
private theorem value?_of_first {name : String} {place : Token} (h : s.Labels (some (name, place)) t)
    (hp : s.pass = .first) : t.symbols.labels.value? name = some s.pc := by
  cases h with
  | bound _ hn =>
    show Bindings.value? (s.symbols.labels ++ [⟨name, s.pc, some place.location⟩]) name = some s.pc
    rw [Bindings.value?_append, Bindings.value?_eq_none_iff.2 hn, Bindings.value?_singleton]
    simp
  | found hp' => rw [hp] at hp'; cases hp'

/-- The second pass goes on only if it is at the address of the label. -/
theorem value?_of_second {name : String} {place : Token} (h : s.Labels (some (name, place)) t)
    (hp : s.pass = .second) : s.symbols.labels.value? name = some s.pc := by
  cases h with
  | bound hp' => rw [hp] at hp'; cases hp'
  | found _ hv => exact hv

end State.Labels

/-! ### Statements -/

namespace Statement

variable {st : Statement}

/-- A statement in the first pass. -/
theorem Does.of_first (h : st.Does s t) (hp : s.pass = .first) :
    ∃ u, s.Labels st.label u ∧ Action.DoAll u st.actions t ∧ st.fault = none := by
  cases h with
  | first _ hl ha hf => exact ⟨_, hl, ha, hf⟩
  | second hp' => rw [hp] at hp'; cases hp'
  | skipped hp' => rw [hp] at hp'; cases hp'

/-- A statement in the second pass. -/
theorem Does.of_second (h : st.Does s t) (hp : s.pass = .second) :
    s.Labels st.label s ∧ ∃ u, t = s.record st.first.line u ∧
      (st.constants = true ∧ u = s ∨ st.constants = false ∧ Action.DoAll s st.actions u) := by
  cases h with
  | first hp' => rw [hp] at hp'; cases hp'
  | second _ hc hl ha =>
    cases hl.eq_of_second hp
    exact ⟨hl, _, rfl, .inr ⟨hc, ha⟩⟩
  | skipped _ hc hl =>
    cases hl.eq_of_second hp
    exact ⟨hl, _, rfl, .inl ⟨hc, rfl⟩⟩

theorem Does.pass (h : st.Does s t) : t.pass = s.pass := by
  cases h with
  | first _ hl ha => rw [ha.frame.pass, hl.same.1]
  | second _ _ hl ha => exact ha.frame.pass.trans hl.same.1
  | skipped _ _ hl => exact hl.same.1

theorem Does.base (h : st.Does s t) : t.base = s.base := by
  cases h with
  | first _ hl ha => rw [ha.frame.base, hl.base]
  | second _ _ hl ha => exact ha.frame.base.trans hl.base
  | skipped _ _ hl => exact hl.base

/-- Whether the source ends with a statement does not depend on the pass. -/
theorem Does.ended_eq (h : st.Does s t) (hg : Action.Group st.constants st.actions) :
    t.ended = (s.ended || st.actions.any Action.isStop) := by
  cases h with
  | first _ hl ha => rw [ha.ended_eq, hl.same.2.2.2.1]
  | second _ _ hl ha =>
    refine ha.ended_eq.trans ?_
    rw [hl.same.2.2.2.1]
  | skipped _ hc hl =>
    have hnone : st.actions.any Action.isStop = false := by
      simpa using fun a ha => Action.not_isStop_of_defined (hg.defined_of_constants hc a ha)
    rw [hnone, Bool.or_false]
    exact hl.same.2.2.2.1

/-- The second pass leaves the symbols alone. -/
theorem Does.symbols_of_second (h : st.Does s t) (hp : s.pass = .second)
    (hg : Action.Group st.constants st.actions) : t.symbols = s.symbols := by
  obtain ⟨-, u, rfl, ⟨-, rfl⟩ | ⟨hc, ha⟩⟩ := h.of_second hp
  · rfl
  · exact ha.symbols_of_defined? (hg.defined?_eq_none hc)

/-- The first pass gives a label the address of its statement. -/
theorem Does.label_of_first (h : st.Does s t) (hp : s.pass = .first) {name : String} {place : Token}
    (hl : st.label = some (name, place)) : t.symbols.labels.value? name = some s.pc := by
  obtain ⟨u, hl', ha, -⟩ := h.of_first hp
  rw [hl] at hl'
  rw [ha.frame.labels]
  exact hl'.value?_of_first hp

theorem Does.label_of_second (h : st.Does s t) (hp : s.pass = .second) {name : String} {place : Token}
    (hl : st.label = some (name, place)) : s.symbols.labels.value? name = some s.pc := by
  have hl' := (h.of_second hp).1
  rw [hl] at hl'
  exact hl'.value?_of_second hp

/-- Labels that are there keep their addresses. -/
theorem Does.labels_value? (h : st.Does s t) {name : String} {v : Int}
    (hv : s.symbols.labels.value? name = some v) : t.symbols.labels.value? name = some v := by
  cases h with
  | first _ hl ha => rw [ha.frame.labels]; exact hl.value? hv
  | second _ _ hl ha => exact ha.frame.labels ▸ hl.value? hv
  | skipped _ _ hl => exact hl.value? hv

/-- A statement of the first pass keeps the values of all symbols if its constants do not take the names of
labels. -/
theorem Does.keptIn (h : st.Does s t) (hp : s.pass = .first)
    (hn : ∀ a ∈ st.actions, ∀ name, a.defined? = some name → t.symbols.labels.value? name = none) :
    s.symbols.KeptIn t.symbols := by
  obtain ⟨u, hl, ha, -⟩ := h.of_first hp
  exact hl.keptIn.trans (ha.keptIn hn)

end Statement

end Mc6809
