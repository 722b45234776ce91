import Mc6809.Assembly.Action

/-!
# Outcomes of steps

When a step of a run succeeds.  The success of a step is stated as an equivalence that says what it returns and
which state it leaves, for the sequencing of steps (`bind_eq_ok`) and for the steps that look at values:
`evaluate_eq_ok`, `within_eq_ok` and `bounded_eq_ok`.
-/

namespace Mc6809

/-- The value of an expression in a state. -/
def State.value (s : State) (e : Expr) : Value :=
  e.value s.symbols s.placeholder

/-- The value of an expression may be used: its symbols are defined if they have to be. -/
def State.Admits (s : State) (required : Bool) (e : Expr) : Prop :=
  required = true ∨ s.pass = .second → (s.value e).settled = true

/-- The value of an expression may be used in a place with bounds, where it amounts to `n`. -/
structure State.Bounded (s : State) (required : Bool) (b : Bounds) (e : Expr) (n : Int) : Prop where
  total : n = (s.value e).total
  admits : s.Admits required e
  contains : (s.value e).settled = true → b.contains n = true

theorem Bounds.contains_iff {b : Bounds} {n : Int} : b.contains n = true ↔ b.low ≤ n ∧ n ≤ b.high := by
  simp [contains]

theorem Expr.settled_iff (e : Expr) (symbols : Symbols) (p : Int) :
    (e.value symbols p).settled = true ↔ firstUndefined? symbols e.terms = none := by
  simp [Expr.value, firstUndefined?, List.findSome?_eq_none_iff]

namespace Assemble

variable {α β : Type} {s s' : State}

/-! ### Success -/

theorem bind_eq_ok {x : Assemble α} {f : α → Assemble β} {b : β} :
    (x >>= f) s = .ok b s' ↔ ∃ a t, x s = .ok a t ∧ f a t = .ok b s' := by
  show EStateM.bind x f s = _ ↔ _
  unfold EStateM.bind
  cases x s with
  | ok a t =>
    constructor
    · intro h
      exact ⟨a, t, rfl, h⟩
    · rintro ⟨a, t, h, hf⟩
      cases h
      exact hf
  | error e t => simp

theorem get_bind (f : State → Assemble α) : (get >>= f) s = f s s :=
  rfl

theorem refuse_bind_ne_ok {p : Problem} {t : Token} {i : Nat} {f : α → Assemble β} {b : β} :
    ((refuse p t i : Assemble α) >>= f) s ≠ .ok b s' := by
  intro h
  cases h

theorem pure_eq_ok {a b : α} : (pure a : Assemble α) s = .ok b s' ↔ b = a ∧ s' = s := by
  show EStateM.Result.ok a s = _ ↔ _
  simp [eq_comm]

theorem get_eq_ok {t : State} : (get : Assemble State) s = .ok t s' ↔ t = s ∧ s' = s := by
  show EStateM.Result.ok s s = _ ↔ _
  simp [eq_comm]

theorem set_eq_ok {t : State} {u : PUnit} : (set t : Assemble PUnit) s = .ok u s' ↔ s' = t := by
  show EStateM.Result.ok PUnit.unit t = _ ↔ _
  simp [eq_comm]

theorem modify_eq_ok {f : State → State} {u : PUnit} : (modify f : Assemble PUnit) s = .ok u s' ↔ s' = f s := by
  show EStateM.Result.ok PUnit.unit (f s) = _ ↔ _
  simp [eq_comm]

theorem emit_eq_ok {bytes : List UInt8} {u : Unit} : emit bytes s = .ok u s' ↔ s' = s.emit bytes :=
  modify_eq_ok

theorem note_eq_ok {n : Note} {u : Unit} : note n s = .ok u s' ↔ s' = s.note n :=
  modify_eq_ok

theorem choose_eq_ok {key width w : Int} :
    choose key width s = .ok w s' ↔ w = (s.choose key width).1 ∧ s' = (s.choose key width).2 := by
  show EStateM.Result.ok (s.choose key width).1 (s.choose key width).2 = _ ↔ _
  simp [eq_comm]

theorem refuse_ne_ok {p : Problem} {t : Token} {i : Nat} {a : α} : (refuse p t i : Assemble α) s ≠ .ok a s' := by
  intro h
  cases h

theorem demand_eq_ok {terms : List Term} {required : Bool} {u : Unit} :
    demand terms required s = .ok u s' ↔
      s' = s ∧ (required = true ∨ s.pass = .second → firstUndefined? s.symbols terms = none) := by
  rw [demand, get_bind]
  by_cases hr : required = true ∨ s.pass = .second
  · rw [if_pos (by simpa using hr)]
    rcases firstUndefined? s.symbols terms with _ | ⟨name, token⟩
    · simp [pure_eq_ok]
    · simp [refuse_ne_ok, hr]
  · rw [if_neg (by simpa using hr)]
    simp [pure_eq_ok, hr]

theorem evaluate_eq_ok {e : Expr} {required : Bool} {v : Value} :
    evaluate e required s = .ok v s' ↔ s' = s ∧ v = s.value e ∧ s.Admits required e := by
  simp only [evaluate, bind_eq_ok, demand_eq_ok, get_eq_ok, pure_eq_ok, State.Admits, State.value,
    Expr.settled_iff]
  constructor
  · rintro ⟨_, _, ⟨rfl, h⟩, _, _, ⟨rfl, rfl⟩, rfl, rfl⟩
    exact ⟨rfl, rfl, h⟩
  · rintro ⟨rfl, rfl, h⟩
    exact ⟨(), _, ⟨rfl, h⟩, _, _, ⟨rfl, rfl⟩, rfl, rfl⟩

theorem within_eq_ok {v : Value} {b : Bounds} {i : Nat} {n : Int} :
    within v b i s = .ok n s' ↔ s' = s ∧ n = v.total ∧ (v.settled = true → b.contains n = true) := by
  unfold within
  split
  · next h =>
    simp only [Bool.and_eq_true, Bool.not_eq_eq_eq_not, Bool.not_true] at h
    simp only [refuse_ne_ok, false_iff, not_and]
    rintro rfl rfl hs
    simp [h.2] at hs
    exact absurd h.1 (by simp [hs])
  · next h =>
    simp only [pure_eq_ok]
    constructor
    · rintro ⟨rfl, rfl⟩
      exact ⟨rfl, rfl, by simpa using h⟩
    · rintro ⟨rfl, rfl, -⟩
      exact ⟨rfl, rfl⟩

theorem fail_ne_ok {f : Fault} {a : α} : (fail f : Assemble α) s ≠ .ok a s' := by
  intro h
  obtain ⟨_, _, _, h⟩ := bind_eq_ok.1 h
  exact refuse_ne_ok h

/-- To evaluate, check the bounds and go on. -/
theorem evaluate_within_eq_ok {e : Expr} {required : Bool} {b : Bounds} {i : Nat} {g : Value → Int → Assemble α}
    {a : α} :
    (evaluate e required >>= fun v => within v b i >>= g v) s = .ok a s' ↔
      ∃ n, s.Bounded required b e n ∧ g (s.value e) n s = .ok a s' := by
  simp only [bind_eq_ok, evaluate_eq_ok, within_eq_ok]
  constructor
  · rintro ⟨_, _, ⟨rfl, rfl, ha⟩, n, _, ⟨rfl, hn, hc⟩, h⟩
    exact ⟨n, ⟨hn, ha, hc⟩, h⟩
  · rintro ⟨n, ⟨hn, ha, hc⟩, h⟩
    exact ⟨_, _, ⟨rfl, rfl, ha⟩, n, _, ⟨rfl, hn, hc⟩, h⟩

theorem bounded_eq_ok {e : Expr} {b : Bounds} {required : Bool} {n : Int} :
    bounded e b required s = .ok n s' ↔ s' = s ∧ s.Bounded required b e n := by
  simp only [bounded, bind_eq_ok, evaluate_eq_ok, within_eq_ok]
  constructor
  · rintro ⟨_, _, ⟨rfl, rfl, ha⟩, rfl, hn, hc⟩
    exact ⟨rfl, hn, ha, hc⟩
  · rintro ⟨rfl, hn, ha, hc⟩
    exact ⟨_, _, ⟨rfl, rfl, ha⟩, rfl, hn, hc⟩

end Assemble

end Mc6809
