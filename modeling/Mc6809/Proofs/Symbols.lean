import Mc6809.Proofs.Assembly.Effect

/-!
# Symbols that keep their values

A table of symbols is kept in another one if every name that it resolves has the same value there
(`Symbols.KeptIn`).  A new label keeps a table (`State.keptIn_addLabel`), and a new constant does unless its name
is that of a label (`State.keptIn_addConstant`).  A sum whose symbols are all defined has the same value in every
table that keeps them (`Expr.value_of_keptIn`).
-/

namespace Mc6809

/-! ### Lists of pairs -/

theorem lookup_assign_self {α β : Type} [DecidableEq α] (key : α) (value : β) (ps : List (α × β)) :
    (assign key value ps).lookup key = some value := by
  induction ps with
  | nil => simp [assign]
  | cons p ps ih =>
    unfold assign
    split
    · simp
    · next h =>
      have hne : (key == p.1) = false := by simpa using Ne.symm h
      rw [List.lookup_cons, hne]
      exact ih

theorem lookup_assign_of_ne {α β : Type} [DecidableEq α] {key key' : α} (h : key' ≠ key) (value : β)
    (ps : List (α × β)) : (assign key value ps).lookup key' = ps.lookup key' := by
  induction ps with
  | nil => simp [assign, h]
  | cons p ps ih =>
    unfold assign
    split
    · next hp =>
      subst hp
      have hne : (key' == p.1) = false := by simpa using h
      rw [List.lookup_cons, List.lookup_cons, hne]
    · rw [List.lookup_cons, List.lookup_cons, ih]

/-! ### Tables -/

namespace Bindings

theorem value?_append (t new : Bindings) (name : String) :
    value? (t ++ new) name = (t.value? name).or (value? new name) := by
  unfold value? binding?
  rw [List.find?_append]
  cases List.find? (fun b => decide (b.name = name)) t <;> simp

theorem value?_singleton (b : Binding) (name : String) :
    value? [b] name = if b.name = name then some b.value else none := by
  unfold value? binding?
  by_cases h : b.name = name <;> simp [h]

theorem value?_eq_none_iff {t : Bindings} {name : String} : t.value? name = none ↔ t.binding? name = none := by
  simp [value?]

/-- A name keeps its value when the table grows. -/
theorem value?_append_of_some {t : Bindings} {name : String} {v : Int} (h : t.value? name = some v)
    (new : Bindings) : value? (t ++ new) name = some v := by
  rw [value?_append, h]
  rfl

theorem names_append (t new : Bindings) : names (t ++ new) = t.names ++ new.names :=
  List.map_append

/-- A name that a table has a value for is among its names. -/
theorem mem_names_of_value? {t : Bindings} {name : String} {v : Int} (h : t.value? name = some v) :
    name ∈ t.names := by
  obtain ⟨b, hb, -⟩ := Option.map_eq_some_iff.1 h
  have hname : b.name = name := by simpa using List.find?_some hb
  exact List.mem_map.2 ⟨b, List.mem_of_find?_eq_some hb, hname⟩

end Bindings

theorem Symbols.labels_of_defineConstant {s t : Symbols} {b : Binding} (h : s.defineConstant b = .ok t) :
    t.labels = s.labels := by
  unfold defineConstant at h
  cases hd : s.constants.define b with
  | error e =>
    rw [hd] at h
    cases h
  | ok u =>
    rw [hd] at h
    cases h
    rfl

/-- Every name that the first table resolves has the same value in the second one. -/
def Symbols.KeptIn (s t : Symbols) : Prop :=
  ∀ name v, s.resolve name = some v → t.resolve name = some v

namespace Symbols.KeptIn

theorem refl (s : Symbols) : s.KeptIn s :=
  fun _ _ h => h

theorem trans {s t u : Symbols} (h : s.KeptIn t) (h' : t.KeptIn u) : s.KeptIn u :=
  fun name v hv => h' name v (h name v hv)

end Symbols.KeptIn

theorem State.keptIn_addLabel (s : State) (name : String) (place : Token) :
    s.symbols.KeptIn (s.addLabel name place).symbols := by
  intro name' v h
  unfold Symbols.resolve at h ⊢
  rw [Option.or_eq_some_iff] at h ⊢
  rcases h with h | ⟨hc, hl⟩
  · exact .inl h
  · exact .inr ⟨hc, Bindings.value?_append_of_some hl _⟩

/-- A constant keeps the table unless its name is that of a label, whose place it would take. -/
theorem State.keptIn_addConstant {s : State} {name : String} (hl : s.symbols.labels.value? name = none)
    (place : Token) (n : Int) :
    s.symbols.KeptIn (s.addConstant name place n).symbols := by
  intro name' v h
  unfold Symbols.resolve at h ⊢
  rw [Option.or_eq_some_iff] at h ⊢
  rcases h with h | ⟨hc, h⟩
  · exact .inl (Bindings.value?_append_of_some h _)
  · refine .inr ⟨?_, h⟩
    have hne : name ≠ name' := by
      rintro rfl
      rw [hl] at h
      cases h
    show Bindings.value? (s.symbols.constants ++ [⟨name, n, some place.location⟩]) name' = none
    rw [Bindings.value?_append, hc, Bindings.value?_singleton, if_neg hne]
    rfl

/-! ### Values -/

private theorem Atom.value?_of_keptIn {s t : Symbols} (h : s.KeptIn t) {a : Atom} {v : Int}
    (hv : a.value? s = some v) : a.value? t = some v := by
  cases a with
  | number n => exact hv
  | symbol name => exact h name v hv

theorem Term.undefined?_eq_none_iff {s : Symbols} {t : Term} :
    t.undefined? s = none ↔ ∃ v, t.atom.value? s = some v := by
  unfold Term.undefined? Atom.value?
  cases t.atom with
  | number n => simp
  | symbol name => simp [Option.ne_none_iff_exists']

/-- A settled value does not change as long as the symbols keep theirs. -/
theorem Expr.value_of_keptIn {s t : Symbols} (h : s.KeptIn t) {e : Expr} {p : Int}
    (hs : (e.value s p).settled = true) (q : Int) : e.value t q = e.value s p := by
  have hterm : ∀ x ∈ e.terms, x.undefined? s = none := by
    simpa [Expr.value] using hs
  have hamount : e.terms.map (Term.amount t q) = e.terms.map (Term.amount s p) := by
    apply List.map_congr_left
    intro x hx
    obtain ⟨v, hv⟩ := Term.undefined?_eq_none_iff.1 (hterm x hx)
    simp [Term.amount, hv, Atom.value?_of_keptIn h hv]
  have hall : (e.terms.all fun x => (x.undefined? t).isNone) = true := by
    rw [List.all_eq_true]
    intro x hx
    obtain ⟨v, hv⟩ := Term.undefined?_eq_none_iff.1 (hterm x hx)
    rw [Option.isNone_iff_eq_none]
    exact Term.undefined?_eq_none_iff.2 ⟨v, Atom.value?_of_keptIn h hv⟩
  have hs' : (e.terms.all fun x => (x.undefined? s).isNone) = true := hs
  unfold Expr.value
  rw [hamount, hall, hs']

end Mc6809
