import Mc6809.Proofs.Assembly.Frame

/-!
# Walks

The lines that a walk gets over, each with the states before and after it (`visits`), those that it starts on
(`attempts`), the last of which may fail, and the rules by which a walk comes to its end (`Walked`,
`walk_eq_none_iff`).  What holds across each line holds across a walk (`Walked.across`), what each line appends
makes up what a walk appends (`Walked.appends`), and a relation that each line keeps ties a second walk to a first
one (`Walked.simulate`).
-/

namespace Mc6809

/-- A line that was carried out, and the states before and after. -/
structure Visit where
  line : Line
  before : State
  after : State

/-- The lines that a walk from a state gets over. -/
def visits (s : State) : List Line → List Visit
  | [] => []
  | l :: ls =>
    if s.ended then []
    else
      match l.run s with
      | .error _ _ => []
      | .ok () t => ⟨l, s, t⟩ :: visits t ls

/-- A line that was started on, and the state by then. -/
structure Attempt where
  line : Line
  state : State

/-- The lines that a walk from a state starts on. -/
def attempts (s : State) : List Line → List Attempt
  | [] => []
  | l :: ls =>
    if s.ended then []
    else
      match l.run s with
      | .error _ _ => [⟨l, s⟩]
      | .ok () t => ⟨l, s⟩ :: attempts t ls

/-- A walk over lines that ends in a state without a failure, and its visits. -/
inductive Walked : State → List Line → List Visit → State → Prop
  | nil (s : State) : Walked s [] [] s
  | ended {s : State} (he : s.ended = true) (ls : List Line) : Walked s ls [] s
  | cons {s t u : State} {l : Line} {ls : List Line} {vs : List Visit} (he : s.ended = false)
      (h : l.run s = .ok () t) (hw : Walked t ls vs u) : Walked s (l :: ls) (⟨l, s, t⟩ :: vs) u

variable {s t u : State} {l : Line} {ls : List Line} {vs : List Visit}

/-- A line without a statement does nothing. -/
theorem Line.run_eq_ok :
    l.run s = .ok () t ↔ (l.statement? = none ∧ t = s) ∨ ∃ st, l.statement? = some st ∧ st.Does s t := by
  unfold Line.run
  rcases l.statement? with _ | st
  · simp [Assemble.pure_eq_ok]
  · simp [Statement.run_eq_ok]

theorem Line.does_of_run {st : Statement} (hl : l.statement? = some st) (h : l.run s = .ok () t) :
    st.Does s t := by
  rcases Line.run_eq_ok.1 h with ⟨hnone, -⟩ | ⟨st', hl', hd⟩
  · rw [hl] at hnone
    cases hnone
  · rw [hl] at hl'
    cases hl'
    exact hd

theorem Line.eq_of_run (hl : l.statement? = none) (h : l.run s = .ok () t) : t = s := by
  rcases Line.run_eq_ok.1 h with ⟨-, rfl⟩ | ⟨st, hl', -⟩
  · rfl
  · rw [hl] at hl'
    cases hl'

theorem Line.pass_of_run (h : l.run s = .ok () t) : t.pass = s.pass := by
  rcases Line.run_eq_ok.1 h with ⟨-, rfl⟩ | ⟨st, -, h⟩
  · rfl
  · exact h.pass

private theorem Line.base_of_run (h : l.run s = .ok () t) : t.base = s.base := by
  rcases Line.run_eq_ok.1 h with ⟨-, rfl⟩ | ⟨st, -, h⟩
  · rfl
  · exact h.base

theorem Line.ended_of_run (h : l.run s = .ok () t) : t.ended = (s.ended || l.stops) := by
  rcases Line.run_eq_ok.1 h with ⟨hl, rfl⟩ | ⟨st, hl, h⟩
  · rw [Line.stops_of_none hl, Bool.or_false]
  · rw [Line.stops_of_statement? hl]
    exact h.ended_eq (Line.group_of_statement? hl)

/-! ### Walks over parts of a source -/

theorem walk_of_ended (he : s.ended = true) (ls : List Line) : walk s ls = (s, none) := by
  cases ls with
  | nil => rfl
  | cons l ls => rw [walk, if_pos he]

theorem walk_cons_of_ok (he : s.ended = false) (h : l.run s = .ok () t) (ls : List Line) :
    walk s (l :: ls) = walk t ls := by
  rw [walk, if_neg (by simp [he]), h]

/-- A walk goes on from where one over the first lines comes to its end. -/
theorem walk_append (h : walk s ls = (t, none)) (ls' : List Line) : walk s (ls ++ ls') = walk t ls' := by
  induction ls generalizing s with
  | nil =>
    cases h
    rfl
  | cons l ls ih =>
    by_cases he : s.ended = true
    · rw [walk_of_ended he] at h
      cases h
      rw [walk_of_ended he, walk_of_ended he]
    · rw [walk, if_neg he] at h
      cases hr : l.run s with
      | error e u =>
        rw [hr] at h
        cases h
      | ok _ u =>
        rw [hr] at h
        rw [List.cons_append, walk_cons_of_ok (by simpa using he) hr]
        exact ih h

/-- A walk does not notice a line without a statement. -/
private theorem walk_skip (hl : l.statement? = none) (s : State) (ls ls' : List Line) :
    walk s (ls ++ l :: ls') = walk s (ls ++ ls') := by
  induction ls generalizing s with
  | nil =>
    by_cases he : s.ended = true
    · exact (walk_of_ended he _).trans (walk_of_ended he _).symm
    · exact walk_cons_of_ok (by simpa using he) (Line.run_eq_ok.2 (.inl ⟨hl, rfl⟩)) ls'
  | cons l ls ih =>
    simp only [List.cons_append, walk]
    split
    · rfl
    · cases l.run s with
      | error e t => rfl
      | ok _ t => exact ih t

theorem run_skip (hl : l.statement? = none) (s : State) (ls ls' : List Line) :
    run s (ls ++ l :: ls') = run s (ls ++ ls') := by
  simp only [run, walk_skip hl]

/-! ### Visits -/

theorem visits_of_ended (he : s.ended = true) (ls : List Line) : visits s ls = [] := by
  cases ls with
  | nil => rfl
  | cons l ls => rw [visits, if_pos he]

private theorem visits_cons_of_ok (he : s.ended = false) (h : l.run s = .ok () t) (ls : List Line) :
    visits s (l :: ls) = ⟨l, s, t⟩ :: visits t ls := by
  rw [visits, if_neg (by simp [he]), h]

private theorem visits_cons_of_error {e : Failure} (h : l.run s = .error e t) (ls : List Line) :
    visits s (l :: ls) = [] := by
  rw [visits, h]
  split <;> rfl

/-- A walk gets over its first line or ends in front of it. -/
private theorem visits_cons_cases (s : State) (l : Line) (ls : List Line) :
    visits s (l :: ls) = [] ∨
      ∃ t, s.ended = false ∧ l.run s = .ok () t ∧ visits s (l :: ls) = ⟨l, s, t⟩ :: visits t ls := by
  by_cases he : s.ended = true
  · exact .inl (visits_of_ended he _)
  · have he' : s.ended = false := by simpa using he
    cases hr : l.run s with
    | ok _ t => exact .inr ⟨t, he', rfl, visits_cons_of_ok he' hr ls⟩
    | error e t => exact .inl (visits_cons_of_error hr ls)

theorem run_of_mem_visits {v : Visit} (hv : v ∈ visits s ls) :
    v.before.ended = false ∧ v.line.run v.before = .ok () v.after := by
  induction ls generalizing s with
  | nil => cases hv
  | cons l ls ih =>
    rcases visits_cons_cases s l ls with h | ⟨t, he, hr, h⟩
    · rw [h] at hv
      cases hv
    · rw [h] at hv
      rcases List.mem_cons.1 hv with rfl | hv
      · exact ⟨he, hr⟩
      · exact ih hv

/-- A walk gets over its lines one after the other. -/
theorem line_of_visits {k : Nat} {v : Visit} (hv : (visits s ls)[k]? = some v) : ls[k]? = some v.line := by
  induction ls generalizing s k with
  | nil => simp [visits] at hv
  | cons l ls ih =>
    rcases visits_cons_cases s l ls with h | ⟨t, -, -, h⟩
    · simp [h] at hv
    · rw [h] at hv
      cases k with
      | zero =>
        cases hv
        rfl
      | succ k => exact ih hv

/-- The steps of a walk are its visits. -/
theorem steps_eq_map_visits (s : State) (ls : List Line) :
    steps s ls = (visits s ls).map fun v => ⟨v.line.next, v.after⟩ := by
  induction ls generalizing s with
  | nil => rfl
  | cons l ls ih =>
    unfold steps visits
    split
    · rfl
    · cases l.run s with
      | ok _ t => simp [ih]
      | error e t => rfl

/-! ### Attempts -/

private theorem attempts_of_ended (he : s.ended = true) (ls : List Line) : attempts s ls = [] := by
  cases ls with
  | nil => rfl
  | cons l ls => rw [attempts, if_pos he]

theorem attempts_cons_of_ok (he : s.ended = false) (h : l.run s = .ok () t) (ls : List Line) :
    attempts s (l :: ls) = ⟨l, s⟩ :: attempts t ls := by
  rw [attempts, if_neg (by simp [he]), h]

theorem attempts_cons_of_error {e : Failure} (he : s.ended = false) (h : l.run s = .error e t) (ls : List Line) :
    attempts s (l :: ls) = [⟨l, s⟩] := by
  rw [attempts, if_neg (by simp [he]), h]

/-- A line that a walk gets over is one that it started on. -/
theorem attempts_of_visits {k : Nat} {v : Visit} (hv : (visits s ls)[k]? = some v) :
    (attempts s ls)[k]? = some ⟨v.line, v.before⟩ := by
  induction ls generalizing s k with
  | nil => simp [visits] at hv
  | cons l ls ih =>
    rcases visits_cons_cases s l ls with h | ⟨t, he, hr, h⟩
    · simp [h] at hv
    · rw [h] at hv
      rw [attempts_cons_of_ok he hr]
      cases k with
      | zero =>
        cases hv
        rfl
      | succ k => exact ih hv

/-- A walk that fails does so on a line that it started on. -/
theorem attempt_of_failure {e : Failure} (h : walk s ls = (u, some e)) :
    ∃ a ∈ attempts s ls, a.line.run a.state = .error e u := by
  induction ls generalizing s with
  | nil => cases h
  | cons l ls ih =>
    rw [walk] at h
    by_cases he : s.ended = true
    · rw [if_pos he] at h
      cases h
    · rw [if_neg he] at h
      have he' : s.ended = false := by simpa using he
      cases hr : l.run s with
      | ok _ t =>
        rw [hr] at h
        rw [attempts_cons_of_ok he' hr]
        obtain ⟨a, ha, hrun⟩ := ih h
        exact ⟨a, List.mem_cons_of_mem _ ha, hrun⟩
      | error e' t =>
        rw [hr] at h
        cases h
        rw [attempts_cons_of_error he' hr]
        exact ⟨_, List.mem_singleton_self _, hr⟩

/-- A line that a walk starts on is its first one, or a walk from behind that one starts on it. -/
private theorem attempts_cons_cases {a : Attempt} (ha : a ∈ attempts s (l :: ls)) :
    a = ⟨l, s⟩ ∨ ∃ t, l.run s = .ok () t ∧ a ∈ attempts t ls := by
  by_cases he : s.ended = true
  · rw [attempts_of_ended he] at ha
    cases ha
  · have he' : s.ended = false := by simpa using he
    cases hr : l.run s with
    | ok _ t =>
      rw [attempts_cons_of_ok he' hr] at ha
      exact (List.mem_cons.1 ha).imp_right fun ha => ⟨t, rfl, ha⟩
    | error e t =>
      rw [attempts_cons_of_error he' hr, List.mem_singleton] at ha
      exact .inl ha

theorem line_mem_of_attempts {a : Attempt} (ha : a ∈ attempts s ls) : a.line ∈ ls := by
  induction ls generalizing s with
  | nil => cases ha
  | cons l ls ih =>
    rcases attempts_cons_cases ha with rfl | ⟨t, -, ha⟩
    · exact List.mem_cons_self ..
    · exact List.mem_cons_of_mem _ (ih ha)

theorem pass_of_attempts {a : Attempt} (ha : a ∈ attempts s ls) : a.state.pass = s.pass := by
  induction ls generalizing s with
  | nil => cases ha
  | cons l ls ih =>
    rcases attempts_cons_cases ha with rfl | ⟨t, hr, ha⟩
    · rfl
    · rw [ih ha, Line.pass_of_run hr]

namespace Walked

theorem visits_eq (h : Walked s ls vs t) : visits s ls = vs := by
  induction h with
  | nil => rfl
  | ended he ls => exact visits_of_ended he ls
  | cons he h _ ih => rw [visits_cons_of_ok he h, ih]

end Walked

/-- A walk without a failure follows the rules. -/
theorem walk_eq_none_iff : walk s ls = (t, none) ↔ Walked s ls (visits s ls) t := by
  constructor
  · intro h
    induction ls generalizing s with
    | nil =>
      cases h
      exact .nil _
    | cons l ls ih =>
      rw [walk] at h
      by_cases he : s.ended = true
      · rw [if_pos he] at h
        cases h
        rw [visits_of_ended he]
        exact .ended he _
      · rw [if_neg he] at h
        have he' : s.ended = false := by simpa using he
        cases hr : l.run s with
        | ok _ u =>
          rw [hr] at h
          rw [visits_cons_of_ok he' hr]
          exact .cons he' hr (ih h)
        | error e u =>
          rw [hr] at h
          cases h
  · generalize visits s ls = vs
    intro h
    induction h with
    | nil => rfl
    | @ended s he ls =>
      cases ls with
      | nil => rfl
      | cons l ls => rw [walk, if_pos he]
    | cons he h _ ih =>
      rw [walk, if_neg (by simp [he]), h]
      exact ih

namespace Walked

/-- What holds across each line holds across a walk, and from each line on to the end. -/
theorem across {R : State → State → Prop} (hrefl : ∀ s, R s s) (htrans : ∀ s t u, R s t → R t u → R s u)
    (h : Walked s ls vs t) (hstep : ∀ v ∈ vs, v.line.run v.before = .ok () v.after → R v.before v.after) :
    R s t ∧ ∀ v ∈ vs, R s v.before ∧ R v.after t := by
  induction h with
  | nil => exact ⟨hrefl _, by simp⟩
  | ended => exact ⟨hrefl _, by simp⟩
  | @cons s t u l ls vs he h hw ih =>
    have hst := hstep ⟨l, s, t⟩ (List.mem_cons_self ..) h
    obtain ⟨htu, hvs⟩ := ih fun v hv => hstep v (List.mem_cons_of_mem _ hv)
    refine ⟨htrans _ _ _ hst htu, fun v hv => ?_⟩
    rcases List.mem_cons.1 hv with rfl | hv
    · exact ⟨hrefl _, htu⟩
    · exact ⟨htrans _ _ _ hst (hvs v hv).1, (hvs v hv).2⟩

/-- What each line appends to a list of the state, a walk appends in the order of its lines. -/
theorem appends {α : Type} {f : State → List α} {g : Visit → List α} (h : Walked s ls vs t)
    (hstep : ∀ v ∈ vs, v.line.run v.before = .ok () v.after → f v.after = f v.before ++ g v) :
    f t = f s ++ vs.flatMap g := by
  induction h with
  | nil => simp
  | ended => simp
  | @cons s t u l ls vs _ hr _ ih =>
    have hst := hstep ⟨l, s, t⟩ (List.mem_cons_self ..) hr
    rw [ih fun v hv => hstep v (List.mem_cons_of_mem _ hv), hst, List.flatMap_cons, List.append_assoc]

theorem base (h : Walked s ls vs t) : t.base = s.base :=
  (h.across (R := fun s t => t.base = s.base) (fun _ => rfl) (fun _ _ _ h h' => h'.trans h)
    fun _ _ hr => Line.base_of_run hr).1

theorem pass_of_mem (h : Walked s ls vs t) {v : Visit} (hv : v ∈ vs) : v.before.pass = s.pass :=
  ((h.across (R := fun s t => t.pass = s.pass) (fun _ => rfl) (fun _ _ _ h h' => h'.trans h)
    fun _ _ hr => Line.pass_of_run hr).2 v hv).1

/-- A walk over lines that another walk has gone over, from a state that is related to the start of that walk.  If
each line keeps the relation, the second walk starts on lines of the first one only, in related states. -/
theorem simulate_attempts {R : State → State → Prop} {s' : State} (h : Walked s ls vs t) (hs : R s s')
    (hended : ∀ s s', R s s' → s'.ended = s.ended)
    (hstep : ∀ v ∈ vs, ∀ s' t', R v.before s' → v.line.run s' = .ok () t' → R v.after t') {k : Nat} {a : Attempt}
    (ha : (attempts s' ls)[k]? = some a) :
    ∃ v : Visit, vs[k]? = some v ∧ a.line = v.line ∧ R v.before a.state := by
  -- The induction is on the first walk; the state of the second one goes along with it.
  induction h generalizing s' k with
  | nil => simp [attempts] at ha
  | @ended s he ls =>
    have he' : s'.ended = true := (hended _ _ hs).trans he
    simp [attempts_of_ended he'] at ha
  | @cons s t u l ls vs he h hw ih =>
    have he' : s'.ended = false := (hended _ _ hs).trans he
    cases hr : l.run s' with
    | error e r =>
      rw [attempts_cons_of_error he' hr] at ha
      cases k with
      | zero =>
        cases ha
        exact ⟨_, rfl, rfl, hs⟩
      | succ k => cases ha
    | ok _ t' =>
      rw [attempts_cons_of_ok he' hr] at ha
      cases k with
      | zero =>
        cases ha
        exact ⟨_, rfl, rfl, hs⟩
      | succ k =>
        exact ih (hstep _ (List.mem_cons_self ..) s' t' hs hr) (fun v hv => hstep v (List.mem_cons_of_mem _ hv)) ha

/-- The second walk gets over lines of the first one only, and a line that it fails on is one of them. -/
theorem simulate {R : State → State → Prop} {s' : State} (h : Walked s ls vs t) (hs : R s s')
    (hended : ∀ s s', R s s' → s'.ended = s.ended)
    (hstep : ∀ v ∈ vs, ∀ s' t', R v.before s' → v.line.run s' = .ok () t' → R v.after t') :
    (∀ (k : Nat) (v' : Visit), (visits s' ls)[k]? = some v' →
        ∃ v : Visit, vs[k]? = some v ∧ v'.line = v.line ∧ R v.before v'.before) ∧
      ∀ u e, walk s' ls = (u, some e) → ∃ v ∈ vs, ∃ r r', R v.before r ∧ v.line.run r = .error e r' := by
  constructor
  · intro k v' hv'
    exact h.simulate_attempts hs hended hstep (attempts_of_visits hv')
  · intro u e hw
    obtain ⟨a, ha, hrun⟩ := attempt_of_failure hw
    obtain ⟨k, hk⟩ := List.getElem?_of_mem ha
    obtain ⟨v, hv, hl, hR⟩ := h.simulate_attempts hs hended hstep hk
    exact ⟨v, List.mem_of_getElem? hv, a.state, u, hR, hl ▸ hrun⟩

end Walked

end Mc6809
