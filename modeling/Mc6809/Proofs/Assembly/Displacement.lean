import Mc6809.Proofs.Symbols

/-!
# Displaced steps

A state is displaced if all addresses in it are, the labels and the program counter included, and symbols that are
not known yet count as another number (`State.move`).  A sum is displaced once for each label that it adds
(`Expr.total_move`).  Steps from a state and from the displaced one are tied to each other by what they return,
their states being displaced again (`Assemble.Moves`).  The tie is kept by sequencing, and without a distance both
fail in the same way.
-/

namespace Mc6809

open Assemble

/-! ### Displaced states -/

/-- How a second run differs from a first one: the labels that are displaced, how far, and what symbols count as
that are not known yet. -/
structure Displacement where
  labels : List String
  distance : Int
  placeholder : Int

def Binding.move (m : Displacement) (b : Binding) : Binding :=
  { b with value := b.value + m.distance }

/-- Labels are addresses and constants are not. -/
def Symbols.move (m : Displacement) (symbols : Symbols) : Symbols :=
  { symbols with labels := symbols.labels.map (Binding.move m) }

def Row.move (m : Displacement) (r : Row) : Row :=
  { r with address := r.address + m.distance }

/-- Of the program counter only the end of a pass gives notice. -/
def Note.move (m : Displacement) : Note → Note
  | pass p pc labels constants => .pass p (pc + m.distance) labels constants
  | n => n

def State.move (m : Displacement) (s : State) : State :=
  { s with
    base := s.base + m.distance
    pc := s.pc + m.distance
    symbols := s.symbols.move m
    listing := s.listing.map (Row.move m)
    notes := s.notes.map (Note.move m)
    placeholder := m.placeholder }

variable {m : Displacement}

namespace Bindings

private theorem names_move (m : Displacement) (t : Bindings) : names (t.map (Binding.move m)) = t.names := by
  simp [names, Binding.move]

theorem binding?_move (m : Displacement) (t : Bindings) (name : String) :
    binding? (t.map (Binding.move m)) name = (t.binding? name).map (Binding.move m) := by
  unfold binding?
  rw [List.find?_map]
  rfl

theorem value?_move (m : Displacement) (t : Bindings) (name : String) :
    value? (t.map (Binding.move m)) name = (t.value? name).map (· + m.distance) := by
  unfold value?
  rw [binding?_move]
  cases t.binding? name <;> rfl

end Bindings

/-! ### Displaced values -/

/-- The labels of a table are among some names, and its constants are not. -/
structure Symbols.Apart (names : List String) (symbols : Symbols) : Prop where
  labels : ∀ name ∈ symbols.labels.names, name ∈ names
  constants : ∀ name ∈ symbols.constants.names, name ∉ names

/-- The sign of a term that is a label. -/
def Term.weight (labels : List String) (t : Term) : Int :=
  match t.atom with
  | .number _ => 0
  | .symbol name => if name ∈ labels then t.sign else 0

/-- What the signs of the labels in a sum add up to. -/
def Expr.weight (labels : List String) (e : Expr) : Int :=
  (e.terms.map (Term.weight labels)).foldr (· + ·) 0

namespace Symbols

variable {symbols : Symbols}

private theorem isSome_resolve_move (m : Displacement) (symbols : Symbols) (name : String) :
    ((symbols.move m).resolve name).isSome = (symbols.resolve name).isSome := by
  simp [resolve, move, Bindings.value?_move]

theorem similar_move (m : Displacement) (symbols : Symbols) (name : String) :
    (symbols.move m).similar name = symbols.similar name := by
  simp [similar, move, Bindings.names_move]

theorem move_of_distance (h : m.distance = 0) (symbols : Symbols) : symbols.move m = symbols := by
  have hmove : Binding.move m = id := by
    funext b
    simp [Binding.move, h]
  rw [move, hmove, List.map_id]

/-- A label is displaced. -/
theorem resolve_move_of_mem (h : m.distance = 0 ∨ symbols.Apart m.labels) {name : String}
    (hn : m.distance = 0 ∨ name ∈ m.labels) :
    (symbols.move m).resolve name = (symbols.resolve name).map (· + m.distance) := by
  by_cases hd : m.distance = 0
  · rw [move_of_distance hd, hd]
    cases symbols.resolve name <;> simp
  · have hc : symbols.constants.value? name = none := by
      rcases hv : symbols.constants.value? name with _ | v
      · rfl
      · exact absurd (hn.resolve_left hd) ((h.resolve_left hd).constants name (Bindings.mem_names_of_value? hv))
    simp [resolve, move, Bindings.value?_move, hc]

/-- Nothing but labels is displaced. -/
private theorem resolve_move_of_notMem (h : m.distance = 0 ∨ symbols.Apart m.labels) {name : String}
    (hn : name ∉ m.labels) : (symbols.move m).resolve name = symbols.resolve name := by
  rcases h with hd | ha
  · rw [move_of_distance hd]
  · have hl : symbols.labels.value? name = none := by
      rcases hv : symbols.labels.value? name with _ | v
      · rfl
      · exact absurd (ha.labels name (Bindings.mem_names_of_value? hv)) hn
    simp [resolve, move, Bindings.value?_move, hl]

end Symbols

private theorem Term.undefined?_move (m : Displacement) (symbols : Symbols) (t : Term) :
    t.undefined? (symbols.move m) = t.undefined? symbols := by
  unfold undefined?
  cases t.atom with
  | number => rfl
  | symbol name => simp only [Symbols.isSome_resolve_move]

private theorem firstUndefined?_move (m : Displacement) (symbols : Symbols) (terms : List Term) :
    firstUndefined? (symbols.move m) terms = firstUndefined? symbols terms := by
  simp only [firstUndefined?, Term.undefined?_move]

private theorem Term.amount_move {symbols : Symbols} (h : m.distance = 0 ∨ symbols.Apart m.labels) {t : Term}
    (ht : t.undefined? symbols = none) (k k' : Int) :
    t.amount (symbols.move m) k' = t.amount symbols k + m.distance * t.weight m.labels := by
  unfold Term.amount Term.weight
  cases ha : t.atom with
  | number n => simp [Atom.value?]
  | symbol name =>
    obtain ⟨v, hv⟩ : ∃ v, symbols.resolve name = some v := by
      simpa [undefined?, ha, Option.isSome_iff_exists] using ht
    by_cases hn : name ∈ m.labels
    · simp only [Atom.value?, Symbols.resolve_move_of_mem h (.inr hn), hv, hn, ↓reduceIte, Option.map_some,
        Option.getD_some, Int.mul_add, Int.mul_comm]
    · simp only [Atom.value?, Symbols.resolve_move_of_notMem h hn, hv, hn, ↓reduceIte, Option.getD_some,
        Int.mul_zero, Int.add_zero]

namespace Expr

private theorem settled_move (m : Displacement) (e : Expr) (symbols : Symbols) (k k' : Int) :
    (e.value (symbols.move m) k').settled = (e.value symbols k).settled := by
  simp only [value, Term.undefined?_move]

/-- A sum whose symbols are defined is displaced once for each label that it adds. -/
theorem total_move {symbols : Symbols} (h : m.distance = 0 ∨ symbols.Apart m.labels) {e : Expr} {k : Int}
    (hs : (e.value symbols k).settled = true) (k' : Int) :
    (e.value (symbols.move m) k').total = (e.value symbols k).total + m.distance * e.weight m.labels := by
  replace hs : ∀ t ∈ e.terms, t.undefined? symbols = none := by simpa [value] using hs
  unfold value weight
  dsimp only
  revert hs
  generalize e.terms = terms
  intro hs
  induction terms with
  | nil => simp
  | cons t ts ih =>
    have ht := Term.amount_move h (hs t (List.mem_cons_self ..)) k k'
    have hts := ih fun t ht => hs t (List.mem_cons_of_mem _ ht)
    simp only [List.map_cons, List.foldr_cons, ht, hts, Int.mul_add]
    omega

end Expr

/-! ### Displaced steps -/

/-- A state of a pass whose labels are the ones that are displaced. -/
structure State.Fits (m : Displacement) (p : Pass) (s : State) : Prop where
  pass : s.pass = p
  apart : m.distance = 0 ∨ s.symbols.Apart m.labels

theorem State.Fits.addLabel {s : State} {p : Pass} (h : s.Fits m p) {name : String}
    (hn : m.distance = 0 ∨ name ∈ m.labels) (place : Token) : (s.addLabel name place).Fits m p := by
  refine ⟨h.pass, ?_⟩
  by_cases hd : m.distance = 0
  · exact .inl hd
  · have ha := h.apart.resolve_left hd
    refine .inr ⟨?_, ha.constants⟩
    intro name' hm
    rw [State.addLabel, Bindings.names_append] at hm
    rcases List.mem_append.1 hm with hm | hm
    · exact ha.labels name' hm
    · cases List.mem_singleton.1 hm
      exact hn.resolve_left hd

theorem State.Fits.addConstant {s : State} {p : Pass} (h : s.Fits m p) {name : String}
    (hn : m.distance = 0 ∨ name ∉ m.labels) (place : Token) (n : Int) : (s.addConstant name place n).Fits m p := by
  refine ⟨h.pass, ?_⟩
  by_cases hd : m.distance = 0
  · exact .inl hd
  · have ha := h.apart.resolve_left hd
    refine .inr ⟨ha.labels, ?_⟩
    intro name' hm
    rw [State.addConstant, Bindings.names_append] at hm
    rcases List.mem_append.1 hm with hm | hm
    · exact ha.constants name' hm
    · cases List.mem_singleton.1 hm
      exact hn.resolve_left hd

/-- Results that are related and come with displaced states, or failures, which are the same without a distance. -/
inductive Assemble.Moved {α : Type} (m : Displacement) (p : Pass) (R : α → α → Prop) :
    EStateM.Result Failure State α → EStateM.Result Failure State α → Prop
  | ok {a a' : α} {s : State} (hs : s.Fits m p) (h : R a a') : Moved m p R (.ok a s) (.ok a' (s.move m))
  | error {e e' : Failure} {s : State} (h : m.distance = 0 → e' = e) :
      Moved m p R (.error e s) (.error e' (s.move m))

/-- A step from a state and another one from the displaced state come to related results. -/
def Assemble.Moves {α : Type} (m : Displacement) (p : Pass) (R : α → α → Prop) (x y : Assemble α) : Prop :=
  ∀ s : State, s.Fits m p → Moved m p R (x s) (y (s.move m))

/-- Values that are displaced by a number if they are settled, which they are where symbols have to be defined. -/
structure Value.Moves (p : Pass) (required : Bool) (n : Int) (v v' : Value) : Prop where
  settled : v'.settled = v.settled
  first : v'.first = v.first
  total : v.settled = true → v'.total = v.total + n
  known : required = true ∨ p = .second → v.settled = true

/-- Numbers that are the same where symbols have to be defined. -/
def Assemble.Agree (p : Pass) (required : Bool) (n n' : Int) : Prop :=
  required = true ∨ p = .second → n' = n

variable {p : Pass}

theorem Value.Moves.eq_of_settled {required : Bool} {v v' : Value} (h : Value.Moves p required 0 v v')
    (hs : v.settled = true) : v' = v := by
  have htotal : v'.total = v.total := (h.total hs).trans (Int.add_zero _)
  have hsettled := h.settled
  have hfirst := h.first
  cases v
  cases v'
  simp only [Value.mk.injEq]
  exact ⟨htotal, hsettled, hfirst⟩

/-- A value that is not displaced is the same or not settled on either side. -/
theorem Value.Moves.eq_or {required : Bool} {v v' : Value} (h : Value.Moves p required 0 v v') :
    v' = v ∨ v.settled = false ∧ v'.settled = false := by
  rcases hs : v.settled with _ | _
  · exact .inr ⟨rfl, h.settled.trans hs⟩
  · exact .inl (h.eq_of_settled hs)

namespace Assemble.Moves

variable {α β : Type} {R : α → α → Prop} {Q : β → β → Prop} {x y : Assemble α} {f g : α → Assemble β}

theorem bind (hx : Moves m p R x y) (hf : ∀ a a', R a a' → Moves m p Q (f a) (g a')) :
    Moves m p Q (x >>= f) (y >>= g) := by
  intro s hs
  show Moved m p Q (EStateM.bind x f s) (EStateM.bind y g (s.move m))
  have h := hx s hs
  unfold EStateM.bind
  generalize x s = r, y (s.move m) = r' at h
  cases h with
  | ok hs h => exact hf _ _ h _ hs
  | error h => exact .error h

theorem pure {a a' : α} (h : R a a') : Moves m p R (Pure.pure a) (Pure.pure a') :=
  fun _ hs => .ok hs h

theorem throw {e e' : Failure} (h : m.distance = 0 → e' = e) : Moves m p R (throw e) (throw e') :=
  fun _ _ => .error h

theorem refuse (problem : Problem) (t : Token) (i : Nat) :
    Moves m p R (Assemble.refuse problem t i) (Assemble.refuse problem t i) :=
  throw fun _ => rfl

theorem get : Moves m p (fun s s' => s.Fits m p ∧ s' = s.move m) get get :=
  fun _ hs => .ok hs ⟨hs, rfl⟩

theorem set {s s' : State} (hs : s.Fits m p) (h : s' = s.move m) : Moves m p Eq (set s) (set s') := by
  subst h
  exact fun _ _ => .ok hs rfl

theorem modify {f f' : State → State}
    (h : ∀ s : State, s.Fits m p → (f s).Fits m p ∧ f' (s.move m) = (f s).move m) :
    Moves m p Eq (modify f) (modify f') := by
  intro s hs
  obtain ⟨hf, he⟩ := h s hs
  show Moved m p Eq (.ok () (f s)) (.ok () (f' (s.move m)))
  rw [he]
  exact .ok hf rfl

theorem note {n n' : Note} (h : n' = n.move m) : Moves m p Eq (Assemble.note n) (Assemble.note n') := by
  refine modify fun s hs => ⟨⟨hs.pass, hs.apart⟩, ?_⟩
  simp [State.note, State.move, h]

/-- The first pass counts bytes and the second one stores them. -/
theorem emit {bytes bytes' : List UInt8} (hl : bytes'.length = bytes.length)
    (hb : p = .second → bytes' = bytes) : Moves m p Eq (Assemble.emit bytes) (Assemble.emit bytes') := by
  refine modify fun s hs => ⟨⟨hs.pass, hs.apart⟩, ?_⟩
  have hpc : s.pc + m.distance + (bytes'.length : Int) = s.pc + bytes.length + m.distance := by
    rw [hl]
    omega
  by_cases hp : s.pass = .second
  · rw [hb (hs.pass.symm.trans hp)] at hpc ⊢
    simp [State.emit, State.move, hp, hpc]
  · simp [State.emit, State.move, hp, hpc]

theorem choose (key width : Int) : Moves m p Eq (Assemble.choose key width) (Assemble.choose key width) := by
  intro s hs
  show Moved m p Eq (.ok (s.choose key width).1 (s.choose key width).2)
    (.ok ((s.move m).choose key width).1 ((s.move m).choose key width).2)
  have hchoose : (s.move m).choose key width = ((s.choose key width).1, (s.choose key width).2.move m) := by
    simp only [State.choose, State.move]
    split <;> rfl
  rw [hchoose]
  refine .ok ?_ rfl
  rw [State.choose_snd]
  exact ⟨hs.pass, hs.apart⟩

private theorem demand (terms : List Term) (required : Bool) :
    Moves m p Eq (Assemble.demand terms required) (Assemble.demand terms required) := by
  refine bind get ?_
  rintro s _ ⟨hs, rfl⟩
  have hsymbols : (s.move m).symbols = s.symbols.move m := rfl
  have hpass : (s.move m).pass = s.pass := rfl
  rw [hsymbols, hpass, firstUndefined?_move]
  split
  · rcases firstUndefined? s.symbols terms with _ | ⟨name, token⟩
    · exact pure rfl
    · simp only [Symbols.similar_move]
      exact refuse _ _ _
  · exact pure rfl

theorem fail (f : Fault) : Moves m p R (Assemble.fail f) (Assemble.fail f) :=
  bind (demand f.seen f.required) fun _ _ _ => refuse _ _ _

/-! ### Steps that look at values -/

theorem evaluate (e : Expr) (required : Bool) :
    Moves m p (Value.Moves p required (m.distance * e.weight m.labels)) (Assemble.evaluate e required)
      (Assemble.evaluate e required) := by
  intro s hs
  have hd := demand e.terms required s hs
  show Moved m p _ (EStateM.bind (Assemble.demand e.terms required) _ s)
    (EStateM.bind (Assemble.demand e.terms required) _ (s.move m))
  unfold EStateM.bind
  generalize hx : Assemble.demand e.terms required s = r, Assemble.demand e.terms required (s.move m) = r' at hd ⊢
  cases hd with
  | error h => exact .error h
  | ok hs _ =>
    obtain ⟨rfl, hknown⟩ := demand_eq_ok.1 hx
    refine .ok hs ⟨Expr.settled_move .., rfl, fun h => Expr.total_move hs.apart h _, fun h => ?_⟩
    exact (Expr.settled_iff ..).2 (hknown (hs.pass ▸ h))

/-- What is refused depends on settled values only. -/
theorem within {v v' : Value} {required : Bool} (h : Value.Moves p required 0 v v') (b : Bounds) (i : Nat) :
    Moves m p (Agree p required) (Assemble.within v b i) (Assemble.within v' b i) := by
  rcases h.eq_or with rfl | ⟨hv, hv'⟩
  · unfold Assemble.within
    split
    · exact refuse _ _ _
    · exact pure fun _ => rfl
  · simp only [Assemble.within, hv, hv']
    refine pure fun hk => ?_
    rw [h.known hk] at hv
    cases hv

/-- A sum in which labels cancel out is not displaced. -/
theorem evaluate_of_weight {e : Expr} (h : m.distance = 0 ∨ e.weight m.labels = 0) (required : Bool) :
    Moves m p (Value.Moves p required 0) (Assemble.evaluate e required) (Assemble.evaluate e required) := by
  have he := evaluate (m := m) (p := p) e required
  rwa [Int.mul_eq_zero.2 h] at he

/-- To evaluate, check the bounds and go on. -/
theorem evaluate_within {e : Expr} {required : Bool} (h : m.distance = 0 ∨ e.weight m.labels = 0) (b : Bounds)
    (i : Nat) {g g' : Value → Int → Assemble α}
    (hg : ∀ v v' n n', Value.Moves p required 0 v v' → Agree p required n n' → Moves m p R (g v n) (g' v' n')) :
    Moves m p R (Assemble.evaluate e required >>= fun v => Assemble.within v b i >>= g v)
      (Assemble.evaluate e required >>= fun v => Assemble.within v b i >>= g' v) :=
  bind (evaluate_of_weight h required) fun v v' hv => bind (within hv b i) fun n n' => hg v v' n n' hv

theorem bounded {e : Expr} (h : m.distance = 0 ∨ e.weight m.labels = 0) (b : Bounds) (required : Bool) :
    Moves m p (Agree p required) (Assemble.bounded e b required) (Assemble.bounded e b required) :=
  bind (evaluate_of_weight h required) fun _ _ hv => within hv b e.next

end Assemble.Moves

end Mc6809
