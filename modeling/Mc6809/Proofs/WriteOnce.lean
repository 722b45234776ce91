import Mc6809.Proofs.Session

/-!
# Symbols are written once

Both tables of symbols only ever grow at their ends, and no name gets into one of them twice (`Symbols.Continues`).
This holds for every line of a walk, whether or not it fails (`Line.Reaches.continues`), and so for any two moments
of it (`pairwise_stages`).  A definition that is refused leaves the tables alone, and the second pass does not touch
them at all, even if it fails (`Line.Reaches.symbols_of_second`).
-/

namespace Mc6809

open Assemble

/-! ### Tables that grow -/

/-- No name stands in one table twice. -/
structure Symbols.Distinct (symbols : Symbols) : Prop where
  labels : symbols.labels.names.Nodup
  constants : symbols.constants.names.Nodup

/-- The second tables begin with the first ones and, unless the first ones do, have no name twice. -/
structure Symbols.Continues (first second : Symbols) : Prop where
  labels : first.labels <+: second.labels
  constants : first.constants <+: second.constants
  distinct : first.Distinct → second.Distinct

namespace Symbols.Continues

theorem refl (symbols : Symbols) : symbols.Continues symbols :=
  ⟨List.prefix_rfl, List.prefix_rfl, id⟩

theorem trans {s t u : Symbols} (h : s.Continues t) (h' : t.Continues u) : s.Continues u :=
  ⟨h.labels.trans h'.labels, h.constants.trans h'.constants, fun hs => h'.distinct (h.distinct hs)⟩

end Symbols.Continues

namespace Bindings

theorem mem_names_iff {t : Bindings} {name : String} : name ∈ t.names ↔ t.binding? name ≠ none := by
  simp [names, binding?, List.find?_eq_none]

/-- A name that is new to a table can be added to it. -/
private theorem nodup_names_append {t : Bindings} {new : Binding} (h : t.names.Nodup)
    (hn : t.binding? new.name = none) :
    (names (t ++ [new])).Nodup := by
  have hnew : new.name ∉ t.names := by simp [mem_names_iff, hn]
  rw [names_append, List.nodup_append]
  refine ⟨h, by simp [names], ?_⟩
  intro name hname other hother
  cases List.mem_singleton.1 hother
  rintro rfl
  exact hnew hname

end Bindings

namespace State

variable {s : State} {name : String}

private theorem continues_addLabel (hn : s.symbols.labels.binding? name = none) (place : Token) :
    s.symbols.Continues (s.addLabel name place).symbols :=
  ⟨List.prefix_append _ _, List.prefix_rfl, fun h => ⟨Bindings.nodup_names_append h.labels hn, h.constants⟩⟩

private theorem continues_addConstant (hn : s.symbols.constants.binding? name = none) (place : Token) (n : Int) :
    s.symbols.Continues (s.addConstant name place n).symbols :=
  ⟨List.prefix_rfl, List.prefix_append _ _, fun h => ⟨h.labels, Bindings.nodup_names_append h.constants hn⟩⟩

end State

/-- The symbols before a run: no labels, and constants that are defined nowhere in the source. -/
def Symbols.predefined (defines : List (String × Int)) : Symbols where
  constants := defines.map fun p => ⟨p.1, p.2, none⟩

private theorem Symbols.pairs_predefined (defines : List (String × Int)) :
    (predefined defines).constants.pairs = defines := by
  simp [predefined, Bindings.pairs, Function.comp_def]

/-- The constants of a session are the first symbols of its tables, in their order and under names in lower case. -/
theorem Session.symbols_of_seed {defines : List (String × Int)} {symbols : Symbols}
    (h : seed defines = .ok symbols) :
    symbols = .predefined (defines.map fun p => (Text.lower p.1, p.2)) ∧ symbols.Distinct := by
  have hempty : Symbols.Distinct {} := ⟨by simp [Bindings.names], by simp [Bindings.names]⟩
  suffices symbols = ⟨Symbols.labels {}, Symbols.constants {} ++
      (Symbols.predefined (defines.map fun p => (Text.lower p.1, p.2))).constants⟩ ∧ symbols.Distinct by
    simpa [Symbols.predefined] using this
  unfold seed at h
  revert hempty h
  -- The empty tables are generalized to those that hold what comes before the rest of the list.
  generalize ({} : Symbols) = first
  induction defines generalizing first with
  | nil =>
    intro h hd
    cases h
    exact ⟨by simp [Symbols.predefined], hd⟩
  | cons p ps ih =>
    intro h hd
    rw [List.foldlM_cons] at h
    rcases hb : first.constants.binding? (Text.lower p.1) with _ | old
    · simp only [Symbols.defineConstant, Bindings.define, hb, Except.map] at h
      obtain ⟨hsymbols, hdistinct⟩ := ih _ h ⟨hd.labels, Bindings.nodup_names_append hd.constants hb⟩
      refine ⟨?_, hdistinct⟩
      rw [hsymbols]
      simp [Symbols.predefined]
    · simp only [Symbols.defineConstant, Bindings.define, hb, Except.map] at h
      cases h

/-! ### Statements -/

section Steps

variable {s t u : State} {a : Action} {as : List Action} {st : Statement} {l : Line} {e : Failure}

namespace Action

private theorem Does.continues (h : a.Does s t) : s.symbols.Continues t.symbols := by
  cases h with
  | define _ hn => exact s.continues_addConstant hn _ _
  | _ => exact .refl _

private theorem DoAll.continues (h : DoAll s as t) : s.symbols.Continues t.symbols := by
  induction h with
  | nil s => exact .refl _
  | cons h _ ih => exact h.continues.trans ih

private theorem Leaves.frame (h : a.Leaves s t) : t.pass = s.pass ∧ t.symbols = s.symbols := by
  cases h <;> exact ⟨rfl, rfl⟩

end Action

private theorem State.Labels.continues {label : Option (String × Token)} (h : s.Labels label t) :
    s.symbols.Continues t.symbols := by
  cases h with
  | absent => exact .refl _
  | bound _ hn => exact s.continues_addLabel hn _
  | found => exact .refl _

private theorem Assemble.state_of_fail {f : Fault} (h : (fail f : Assemble Unit) s = .error e t) : t = s := by
  obtain h | ⟨_, u, hd, h⟩ := bind_eq_error.1 h
  · exact (demand_eq_error h).2
  · rw [(refuse_eq_error h).2]
    exact (demand_eq_ok.1 hd).1

/-- The states before a line and after it, whether it succeeds or fails. -/
inductive Line.Reaches (l : Line) (s t : State) : Prop
  | ok (h : l.run s = .ok () t) : Reaches l s t
  | error {e : Failure} (h : l.run s = .error e t) : Reaches l s t

namespace Statement

private theorem Does.continues (h : st.Does s t) : s.symbols.Continues t.symbols := by
  cases h with
  | first _ hl ha => exact hl.continues.trans ha.continues
  | second _ _ hl ha => exact hl.continues.trans ha.continues
  | skipped _ _ hl => exact hl.continues

private theorem Breaks.continues (h : st.Breaks s e t) : s.symbols.Continues t.symbols := by
  cases h with
  | label => exact .refl _
  | action hl _ hd hr _ =>
    rw [(Action.run_eq_error hr).2.frame.2]
    exact hl.continues.trans hd.continues
  | fault hl hd _ hr _ =>
    rw [state_of_fail hr]
    exact hl.continues.trans hd.continues

private theorem Breaks.pass (h : st.Breaks s e t) : t.pass = s.pass := by
  cases h with
  | label => rfl
  | action hl _ hd hr _ => rw [(Action.run_eq_error hr).2.frame.1, hd.frame.pass, hl.same.1]
  | fault hl hd _ hr _ => rw [state_of_fail hr, hd.frame.pass, hl.same.1]

/-- A statement that fails in the second pass leaves the symbols alone, too. -/
private theorem Breaks.symbols_of_second (h : st.Breaks s e t) (hp : s.pass = .second)
    (hg : Action.Group st.constants st.actions) : t.symbols = s.symbols := by
  cases h with
  | label => rfl
  | action hl ha hd hr hc =>
    have hnone := hg.defined?_eq_none (hc hp)
    rw [ha] at hnone
    rw [(Action.run_eq_error hr).2.frame.2,
      hd.symbols_of_defined? fun b hb => hnone b (List.mem_append_left _ hb), hl.eq_of_second hp]
  | fault hl hd _ hr hc =>
    rw [state_of_fail hr, hd.symbols_of_defined? (hg.defined?_eq_none (hc hp)), hl.eq_of_second hp]

end Statement

namespace Line.Reaches

private theorem cases_statement (h : l.Reaches s t) :
    t = s ∨ ∃ st, l.statement? = some st ∧ (st.Does s t ∨ ∃ e, st.Breaks s e t) := by
  cases h with
  | ok h =>
    rcases Line.run_eq_ok.1 h with ⟨-, rfl⟩ | ⟨st, hl, hd⟩
    · exact .inl rfl
    · exact .inr ⟨st, hl, .inl hd⟩
  | error h =>
    rcases hl : l.statement? with _ | st
    · rw [Line.run, hl] at h
      cases h
    · rw [Line.run, hl] at h
      exact .inr ⟨st, rfl, .inr ⟨_, Statement.breaks_of_run h⟩⟩

/-- A line appends to the tables what is new to them. -/
theorem continues (h : l.Reaches s t) : s.symbols.Continues t.symbols := by
  rcases h.cases_statement with rfl | ⟨st, -, hd | ⟨e, hb⟩⟩
  · exact .refl _
  · exact hd.continues
  · exact hb.continues

private theorem pass (h : l.Reaches s t) : t.pass = s.pass := by
  rcases h.cases_statement with rfl | ⟨st, -, hd | ⟨e, hb⟩⟩
  · rfl
  · exact hd.pass
  · exact hb.pass

theorem symbols_of_second (h : l.Reaches s t) (hp : s.pass = .second) : t.symbols = s.symbols := by
  rcases h.cases_statement with rfl | ⟨st, hl, hd | ⟨e, hb⟩⟩
  · rfl
  · exact hd.symbols_of_second hp (Line.group_of_statement? hl)
  · exact hb.symbols_of_second hp (Line.group_of_statement? hl)

end Line.Reaches

end Steps

/-! ### Walks -/

/-- The states of a walk: at its start, after each line that it gets over, and at its end, where it may have
failed. -/
def stages (s : State) (ls : List Line) : List State :=
  s :: (steps s ls).map Step.state ++ [(walk s ls).1]

/-- A relation that holds across each line holds between any two moments of a walk. -/
theorem pairwise_stages {R : State → State → Prop} (hrefl : ∀ s, R s s)
    (htrans : ∀ s t u, R s t → R t u → R s u) (hstep : ∀ (l : Line) (s t : State), l.Reaches s t → R s t)
    (s : State) (ls : List Line) : (stages s ls).Pairwise R ∧ ∀ t ∈ stages s ls, R s t := by
  have hpair : ∀ s t, R s t → [s, t].Pairwise R ∧ ∀ u ∈ [s, t], R s u := by
    intro s t h
    simp [hrefl, h]
  induction ls generalizing s with
  | nil => exact hpair s s (hrefl s)
  | cons l ls ih =>
    by_cases he : s.ended = true
    · have hstages : stages s (l :: ls) = [s, s] := by simp [stages, steps, walk, he]
      rw [hstages]
      exact hpair s s (hrefl s)
    · cases hr : l.run s with
      | error e t =>
        have hstages : stages s (l :: ls) = [s, t] := by simp [stages, steps, walk, he, hr]
        rw [hstages]
        exact hpair s t (hstep l s t (.error hr))
      | ok _ t =>
        have hstages : stages s (l :: ls) = s :: stages t ls := by simp [stages, steps, walk, he, hr]
        obtain ⟨hlater, hfrom⟩ := ih t
        have hst : R s t := hstep l s t (.ok hr)
        have hafter : ∀ u ∈ stages t ls, R s u := fun u hu => htrans s t u hst (hfrom u hu)
        rw [hstages]
        refine ⟨List.pairwise_cons.2 ⟨hafter, hlater⟩, fun u hu => ?_⟩
        rcases List.mem_cons.1 hu with rfl | hu
        · exact hrefl _
        · exact hafter u hu

/-- The second pass keeps the symbols that it starts with at every stage. -/
private theorem symbols_of_stage {s t : State} {ls : List Line} (hp : s.pass = .second) (ht : t ∈ stages s ls) :
    t.symbols = s.symbols := by
  have hkept := (pairwise_stages (R := fun s t => s.pass = .second → t.pass = .second ∧ t.symbols = s.symbols)
    (fun _ hp => ⟨hp, rfl⟩) (fun _ _ _ h h' hp => ⟨(h' (h hp).1).1, (h' (h hp).1).2.trans (h hp).2⟩)
    (fun _ _ _ h hp => ⟨h.pass.trans hp, h.symbols_of_second hp⟩) s ls).2 t ht
  exact (hkept hp).2

/-- A run ends with the symbols of its first pass. -/
theorem symbols_of_run (s : State) (ls : List Line) :
    (run s ls).state.symbols = (walk (s.start .first) ls).1.symbols := by
  unfold run
  rcases walk (s.start .first) ls with ⟨t, _ | e⟩
  · have hlast : (walk t.turn ls).1 ∈ stages t.turn ls := by simp [stages]
    have hkept := symbols_of_stage rfl hlast
    dsimp only
    rcases hw : walk t.turn ls with ⟨u, _ | e⟩ <;> rw [hw] at hkept <;> exact hkept
  · rfl

/-- A definition that is refused leaves the state as it is.  That of a name that its table has already is refused
for this reason: of a label in the first pass, of a constant once its value is known. -/
private theorem state_of_refused_definition (s t : State) (name : String) (place : Token) (x : Expr) (e : Failure) :
    (bindLabel name place s = .error e t → t = s) ∧ (defineConstant name place x s = .error e t → t = s) ∧
      (s.pass = .first → name ∈ s.symbols.labels.names → ∃ first,
        bindLabel name place s = .error (.refused (.duplicateSymbol name first) place (place.index + 1)) s) ∧
      ((s.value x).settled = true → name ∈ s.symbols.constants.names → ∃ first,
        defineConstant name place x s = .error (.refused (.duplicateSymbol name first) place x.next) s) := by
  refine ⟨fun h => (bindLabel_eq_error h).2, fun h => ?_, fun hp hn => ?_, fun hs hn => ?_⟩
  · have hrun : (Action.define name place x).run s = .error e t := h
    cases (Action.run_eq_error hrun).2
    rfl
  · obtain ⟨old, hold⟩ := Option.ne_none_iff_exists'.1 (Bindings.mem_names_iff.1 hn)
    refine ⟨old.place, ?_⟩
    rw [bindLabel, get_bind]
    simp only [hp, Symbols.defineLabel, Bindings.define, hold, Except.map]
    rfl
  · obtain ⟨old, hold⟩ := Option.ne_none_iff_exists'.1 (Bindings.mem_names_iff.1 hn)
    refine ⟨old.place, ?_⟩
    have hvalue : evaluate x true s = .ok (s.value x) s := evaluate_eq_ok.2 ⟨rfl, rfl, fun _ => hs⟩
    show EStateM.bind (evaluate x true) _ s = _
    unfold EStateM.bind
    rw [hvalue]
    simp only [get_bind, Symbols.defineConstant, Bindings.define, hold, Except.map]
    rfl

/-- The tables start with the constants that the session defines and no label.  Through the first pass they only grow
at their ends and never have a name twice, whether or not the pass fails.  Through the second pass they stay as the
first one left them, whether or not the second one fails, and so the session shows them in the end.  A definition that
is refused leaves them as they are, and that of a name that is in its table already is refused. -/
theorem symbols_are_written_once {z : Session} {source file : String} {symbols : Symbols} {tokens : List Token}
    (hseed : Session.seed z.defines = .ok symbols) (ht : tokenize source file = .ok tokens) (base : Option Int) :
    symbols.labels = [] ∧ symbols.constants.pairs = z.defines.map (fun p => (Text.lower p.1, p.2)) ∧
      (stages (z.start base symbols) (Line.split tokens)).Pairwise (fun s t =>
        s.symbols.labels <+: t.symbols.labels ∧ s.symbols.constants <+: t.symbols.constants) ∧
      (∀ s ∈ stages (z.start base symbols) (Line.split tokens),
        s.symbols.labels.names.Nodup ∧ s.symbols.constants.names.Nodup) ∧
      (∀ t, walk (z.start base symbols) (Line.split tokens) = (t, none) →
        ∀ u ∈ stages t.turn (Line.split tokens), u.symbols = t.symbols) ∧
      (∀ t e, walk (z.start base symbols) (Line.split tokens) = (t, e) →
        (z.assemble source base file).1.labels = t.symbols.labels.pairs ∧
          (z.assemble source base file).1.constants = t.symbols.constants.pairs) ∧
      ∀ (s t : State) (name : String) (place : Token) (x : Expr) (e : Failure),
        (bindLabel name place s = .error e t → t = s) ∧ (defineConstant name place x s = .error e t → t = s) ∧
          (s.pass = .first → name ∈ s.symbols.labels.names → ∃ first,
            bindLabel name place s = .error (.refused (.duplicateSymbol name first) place (place.index + 1)) s) ∧
          ((s.value x).settled = true → name ∈ s.symbols.constants.names → ∃ first,
            defineConstant name place x s = .error (.refused (.duplicateSymbol name first) place x.next) s) := by
  obtain ⟨hsymbols, hdistinct⟩ := Session.symbols_of_seed hseed
  have hpairs : symbols.constants.pairs = z.defines.map fun p => (Text.lower p.1, p.2) := by
    rw [hsymbols, Symbols.pairs_predefined]
  obtain ⟨hgrow, hfrom⟩ := pairwise_stages (R := fun s t => s.symbols.Continues t.symbols) (fun _ => .refl _)
    (fun _ _ _ => .trans) (fun _ _ _ h => h.continues) (z.start base symbols) (Line.split tokens)
  refine ⟨Session.labels_of_seed hseed, hpairs, hgrow.imp fun h => ⟨h.labels, h.constants⟩, ?_,
    fun t _ u hu => symbols_of_stage (s := t.turn) rfl hu, ?_, state_of_refused_definition⟩
  · intro s hs
    have hd := (hfrom s hs).distinct hdistinct
    exact ⟨hd.labels, hd.constants⟩
  · intro t e hw
    have hrun := symbols_of_run { base := base.getD z.base, symbols } (Line.split tokens)
    rw [Session.start] at hw
    rw [hw] at hrun
    have hlast := (@Session.assemble_of_run z source file base symbols tokens hseed ht).1
    simp only [Session.labels, Session.constants, hlast, hrun, and_self]

/-- A source that comes through the first pass and fails in the second one, behind a label, on a symbol that is
defined nowhere. -/
private def halfway : String :=
  "n = 1, m = n+k\np: rmb 2\nq: fcb r\n"

theorem symbols_are_written_once_halfway :
    ∃ symbols tokens t, Session.seed [("K", 7)] = .ok symbols ∧ tokenize halfway "main.asm" = .ok tokens ∧
      walk (Session.start { defines := [("K", 7)] } none symbols) (Line.split tokens) = (t, none) ∧
      (stages (Session.start { defines := [("K", 7)] } none symbols) (Line.split tokens)).map
          (fun s => (s.symbols.labels.pairs, s.symbols.constants.pairs)) =
        [([], [("k", 7)]), ([], [("k", 7), ("n", 1), ("m", 8)]),
          ([("p", 0x4000)], [("k", 7), ("n", 1), ("m", 8)]),
          ([("p", 0x4000), ("q", 0x4002)], [("k", 7), ("n", 1), ("m", 8)]),
          ([("p", 0x4000), ("q", 0x4002)], [("k", 7), ("n", 1), ("m", 8)])] ∧
      (stages (Session.start { defines := [("K", 7)] } none symbols) (Line.split tokens)).Pairwise (fun s t =>
        s.symbols.labels <+: t.symbols.labels ∧ s.symbols.constants <+: t.symbols.constants) ∧
      (walk t.turn (Line.split tokens)).2 ≠ none ∧ (stages t.turn (Line.split tokens)).length = 4 ∧
      ∀ u ∈ stages t.turn (Line.split tokens), u.symbols = t.symbols := by
  let z : Session := { defines := [("K", 7)] }
  let symbols := (Session.seed z.defines).toOption.getD {}
  let tokens := (tokenize halfway "main.asm").toOption.getD []
  let first := walk (z.start none symbols) (Line.split tokens)
  have ht : tokenize halfway "main.asm" = .ok tokens := tokenize_eq_ok (by decide +kernel)
  have hseed : Session.seed z.defines = .ok symbols := rfl
  have hrun : first.2 = none ∧ (walk first.1.turn (Line.split tokens)).2 ≠ none ∧
      (stages first.1.turn (Line.split tokens)).length = 4 ∧
      (stages (z.start none symbols) (Line.split tokens)).map
          (fun s => (s.symbols.labels.pairs, s.symbols.constants.pairs)) =
        [([], [("k", 7)]), ([], [("k", 7), ("n", 1), ("m", 8)]),
          ([("p", 0x4000)], [("k", 7), ("n", 1), ("m", 8)]),
          ([("p", 0x4000), ("q", 0x4002)], [("k", 7), ("n", 1), ("m", 8)]),
          ([("p", 0x4000), ("q", 0x4002)], [("k", 7), ("n", 1), ("m", 8)])] := by
    decide +kernel
  obtain ⟨hnone, hfails, hlength, htables⟩ := hrun
  have hw : first = (first.1, none) := Prod.ext rfl hnone
  obtain ⟨-, -, hgrow, -, hkept, -, -⟩ := symbols_are_written_once hseed ht none
  exact ⟨symbols, tokens, first.1, hseed, ht, hw, htables, hgrow, hfails, hlength, hkept first.1 hw⟩

end Mc6809
