import Mc6809.Proofs.Assembly.Frame
import Mc6809.Proofs.Reading.Line

/-!
# How steps fail

An action fails only with a refusal at one of its tokens (`Failure.Of`), and by then it has done no more than to
emit an opcode or to choose a width (`Action.Leaves`).  A statement breaks off at its label, in one of its actions
or at the fault of its line (`Statement.Breaks`).  So only a label can be out of phase
(`Statement.inPhase_of_labels`), and every failure but an unbound label is a refusal on the line
(`Statement.Breaks.on`).
-/

namespace Mc6809

namespace Failure

/-- A label of the second pass that is not where the first one put it. -/
def isPhaseError : Failure → Bool
  | refused (.phaseError _ _ _) _ _ => true
  | _ => false

/-- A refusal at one of the tokens `ts` that is no phase error. The next token to be read is at most the one after
some of them, or it is among `following`. -/
inductive Of (ts : List Token) (following : List Nat) : Failure → Prop
  | refused {p : Problem} {t : Token} {i : Nat} (hp : isPhaseError (.refused p t i) = false) (ht : t ∈ ts)
      (hi : i ∈ following ∨ ∃ u ∈ ts, i ≤ u.index + 1) : Of ts following (.refused p t i)

/-- A refusal on a line: at one of its tokens or at its end, with no token behind the end read. -/
inductive On (stop : Token) (ts : List Token) : Failure → Prop
  | refused {p : Problem} {t : Token} {i : Nat} (ht : t ∈ ts ∨ t = stop) (hi : i ≤ stop.index) :
      On stop ts (.refused p t i)

variable {e : Failure} {ts us : List Token} {following : List Nat}

private theorem Of.mono {numbers : List Nat} (h : e.Of us numbers) (hu : ∀ t ∈ us, t ∈ ts)
    (hn : ∀ i ∈ numbers, i ∈ following ∨ ∃ u ∈ ts, i ≤ u.index + 1) : e.Of ts following := by
  cases h with
  | refused hp ht hi =>
    obtain hi | ⟨u, hm, hi⟩ := hi
    · exact .refused hp (hu _ ht) (hn _ hi)
    · exact .refused hp (hu _ ht) (.inr ⟨u, hu u hm, hi⟩)

private theorem Of.inPhase (h : e.Of ts following) : e.isPhaseError = false := by
  cases h with
  | refused hp => exact hp

private theorem Of.on {stop : Token} (h : e.Of us following) (hu : ∀ t ∈ us, t ∈ ts)
    (hf : ∀ i ∈ following, i ≤ stop.index) (hb : Precede ts stop) : e.On stop ts := by
  cases h with
  | refused _ ht hi =>
    refine .refused (.inl (hu _ ht)) ?_
    obtain hi | ⟨u, hm, hi⟩ := hi
    · exact hf _ hi
    · exact Nat.le_trans hi (hb u (hu u hm))

end Failure

/-- The token after an expression comes right after one of its tokens. -/
private theorem Expr.next_le (e : Expr) : ∃ u ∈ e.tokens, e.next ≤ u.index + 1 := by
  unfold next
  split
  · next t ht => exact ⟨t.token, term_token_mem (List.mem_of_getLast? ht), Nat.le_refl _⟩
  · exact ⟨e.first, List.mem_cons_self .., Nat.le_succ _⟩

namespace Assemble

variable {α β : Type} {s s' : State} {e : Failure}

theorem bind_eq_error {x : Assemble α} {f : α → Assemble β} :
    (x >>= f) s = .error e s' ↔ x s = .error e s' ∨ ∃ a t, x s = .ok a t ∧ f a t = .error e s' := by
  show EStateM.bind x f s = _ ↔ _
  unfold EStateM.bind
  cases x s with
  | ok a t =>
    constructor
    · intro h
      exact .inr ⟨a, t, rfl, h⟩
    · rintro (h | ⟨a, t, h, hf⟩)
      · cases h
      · cases h
        exact hf
  | error e' t => simp

private theorem pure_ne_error {a : α} : (pure a : Assemble α) s ≠ .error e s' := by
  intro h
  cases h

theorem refuse_eq_error {p : Problem} {t : Token} {i : Nat} (h : (refuse p t i : Assemble α) s = .error e s') :
    e = .refused p t i ∧ s' = s := by
  cases h
  exact ⟨rfl, rfl⟩

theorem demand_eq_error {terms : List Term} {required : Bool} (h : demand terms required s = .error e s') :
    e.Of (terms.map Term.token) [] ∧ s' = s := by
  rw [demand, get_bind] at h
  rcases hu : firstUndefined? s.symbols terms with _ | ⟨name, token⟩
  · simp only [hu] at h
    split at h <;> exact absurd h pure_ne_error
  · simp only [hu] at h
    split at h
    · obtain ⟨rfl, rfl⟩ := refuse_eq_error h
      obtain ⟨x, hx, hname⟩ := List.exists_of_findSome?_eq_some hu
      obtain ⟨_, -, hpair⟩ := Option.map_eq_some_iff.1 hname
      cases hpair
      have hmem := List.mem_map_of_mem (f := Term.token) hx
      exact ⟨.refused rfl hmem (.inr ⟨_, hmem, Nat.le_refl _⟩), rfl⟩
    · exact absurd h pure_ne_error

private theorem evaluate_eq_error {x : Expr} {required : Bool} (h : evaluate x required s = .error e s') :
    e.Of x.tokens [] ∧ s' = s := by
  obtain h | ⟨_, _, -, h⟩ := bind_eq_error.1 h
  · obtain ⟨he, rfl⟩ := demand_eq_error h
    exact ⟨he.mono (fun t ht => List.mem_cons_of_mem _ ht) (by simp), rfl⟩
  · cases h

private theorem within_eq_error {v : Value} {b : Bounds} {i : Nat} (h : within v b i s = .error e s') :
    e = .refused (.outOfRange b.what v.total b.low b.high) v.first i ∧ s' = s := by
  unfold within at h
  split at h
  · exact refuse_eq_error h
  · exact absurd h pure_ne_error

/-- To evaluate and check the bounds. -/
private theorem bounded_eq_error {x : Expr} {b : Bounds} {required : Bool} (h : bounded x b required s = .error e s') :
    e.Of x.tokens [] ∧ s' = s := by
  obtain h | ⟨v, t, hv, h⟩ := bind_eq_error.1 h
  · exact evaluate_eq_error h
  · obtain ⟨rfl, rfl, -⟩ := evaluate_eq_ok.1 hv
    obtain ⟨rfl, rfl⟩ := within_eq_error h
    exact ⟨.refused rfl (List.mem_cons_self ..) (.inr x.next_le), rfl⟩

/-- To evaluate, check the bounds and go on with something that does not fail. -/
private theorem evaluate_within_eq_error {x : Expr} {required : Bool} {b : Bounds} {i : Nat}
    {g : Value → Int → Assemble α}
    (hg : ∀ v n t u, g v n t ≠ .error e u)
    (h : (evaluate x required >>= fun v => within v b i >>= g v) s = .error e s') : e.Of x.tokens [i] ∧ s' = s := by
  obtain h | ⟨v, t, hv, h⟩ := bind_eq_error.1 h
  · obtain ⟨he, rfl⟩ := evaluate_eq_error h
    exact ⟨he.mono (fun _ ht => ht) (by simp), rfl⟩
  · obtain ⟨rfl, rfl, -⟩ := evaluate_eq_ok.1 hv
    obtain h | ⟨n, u, -, h⟩ := bind_eq_error.1 h
    · obtain ⟨rfl, rfl⟩ := within_eq_error h
      exact ⟨.refused rfl (List.mem_cons_self ..) (.inl (List.mem_singleton_self _)), rfl⟩
    · exact absurd h (hg _ n u s')

end Assemble

/-- What an action that fails can leave behind. -/
inductive Action.Leaves (s : State) : Action → State → Prop
  | same (a : Action) : Leaves s a s
  | opcode {m : Mnemonic} {mnemonic : Token} {i : Instruction} {next : Nat} (f : Form) :
      Leaves s (.instruct m mnemonic i next) (s.emit (opcodeBytes f.opcode))
  | chosen {m : Mnemonic} {mnemonic : Token} {i : Instruction} {next : Nat} {own : Int}
      (h : i.ownWidth? m s = some own) :
      Leaves s (.instruct m mnemonic i next) { s with widths := s.widthsWith mnemonic.index own }

open Assemble

section Action

variable {s s' : State} {e : Failure}

/-! ### Instructions -/

namespace Instruction

variable {m : Mnemonic} {mnemonic : Token} {next : Nat} {x : Expr}

private theorem assembleBranch_eq_error {f : Form} {name : String} {target : Token}
    (h : assembleBranch f name target s = .error e s') : e.Of [target] [] ∧ s' = s := by
  have hof : ∀ {p : Problem}, Failure.isPhaseError (.refused p target (target.index + 1)) = false →
      Failure.Of [target] [] (.refused p target (target.index + 1)) :=
    fun hp => .refused hp (List.mem_singleton_self _) (.inr ⟨target, List.mem_singleton_self _, Nat.le_refl _⟩)
  rw [assembleBranch, get_bind] at h
  rcases hr : s.symbols.resolve name with _ | v
  · simp only [hr] at h
    split at h
    · obtain h | ⟨_, _, h, -⟩ := bind_eq_error.1 h
      · obtain ⟨rfl, rfl⟩ := refuse_eq_error h
        exact ⟨hof rfl, rfl⟩
      · exact absurd h refuse_ne_ok
    · cases h
  · simp only [hr] at h
    split at h
    · cases h
    · obtain h | ⟨_, _, h, -⟩ := bind_eq_error.1 h
      · obtain ⟨rfl, rfl⟩ := refuse_eq_error h
        exact ⟨hof rfl, rfl⟩
      · exact absurd h refuse_ne_ok

/-- What is left to do once the width is chosen comes after the choice. -/
private theorem assembleAddress_eq_error (h : assembleAddress m mnemonic x s = .error e s') :
    e.Of (mnemonic :: x.tokens) [] ∧
      (s' = s ∨ s' = { s with widths := s.widthsWith mnemonic.index (addressWidth m s x) }) := by
  obtain ⟨u, hu, hnext⟩ := x.next_le
  have hmem : ∀ t ∈ x.tokens, t ∈ mnemonic :: x.tokens := fun t ht => List.mem_cons_of_mem _ ht
  have hform : ∀ {p : Problem}, Failure.isPhaseError (.refused p mnemonic x.next) = false →
      Failure.Of (mnemonic :: x.tokens) [] (.refused p mnemonic x.next) :=
    fun hp => .refused hp (List.mem_cons_self ..) (.inr ⟨u, hmem u hu, hnext⟩)
  rw [← State.choose_snd]
  obtain h | ⟨v, t, hv, h⟩ := bind_eq_error.1 h
  · obtain ⟨he, rfl⟩ := evaluate_eq_error h
    exact ⟨he.mono hmem (by simp), .inl rfl⟩
  · obtain ⟨ht, rfl, -⟩ := evaluate_eq_ok.1 hv
    subst t
    rw [get_bind] at h
    obtain h | ⟨w, t, hw, h⟩ := bind_eq_error.1 h
    · cases h
    · have ht : t = (s.choose mnemonic.index (addressWidth m s x)).2 := (choose_eq_ok.1 hw).2
      split at h
      · rcases hf : m.form? .direct with _ | f
        · simp only [hf] at h
          obtain ⟨rfl, rfl⟩ := refuse_eq_error h
          exact ⟨hform rfl, .inr ht⟩
        · simp only [hf] at h
          cases h
      · rcases hf : m.form? .extended with _ | f
        · simp only [hf] at h
          obtain ⟨rfl, rfl⟩ := refuse_eq_error h
          exact ⟨hform rfl, .inr ht⟩
        · simp only [hf] at h
          obtain h | ⟨_, _, -, h⟩ := bind_eq_error.1 h
          · obtain ⟨rfl, rfl⟩ := within_eq_error h
            exact ⟨.refused rfl (hmem _ (List.mem_cons_self ..)) (.inr ⟨u, hmem u hu, hnext⟩), .inr ht⟩
          · cases h

private theorem assembleIndexed_eq_error {f : Form} {indirect : Bool} {operand : IndexOperand}
    (h : assembleIndexed mnemonic.index f indirect next operand s = .error e s') :
    e.Of (operand.expr?.toList.flatMap Expr.tokens) [next] ∧ s' = s := by
  have hexpr : ∀ {x : Expr}, e.Of x.tokens [next] ∧ s' = s → e.Of ([x].flatMap Expr.tokens) [next] ∧ s' = s :=
    fun he => ⟨he.1.mono (by simp) fun i hi => .inl hi, he.2⟩
  cases operand with
  | noOffset => cases h
  | accumulator => cases h
  | stepping => cases h
  | offset x r => exact hexpr (evaluate_within_eq_error (fun _ _ _ _ h => by cases h) h)
  | counter x => exact hexpr (evaluate_within_eq_error (fun _ _ _ _ h => by cases h) h)
  | target x =>
    obtain h | ⟨_, _, -, h⟩ := bind_eq_error.1 h
    · obtain ⟨he, rfl⟩ := evaluate_eq_error h
      exact hexpr ⟨he.mono (fun _ ht => ht) (by simp), rfl⟩
    · cases h

/-- The opcode of an immediate operand is emitted before the value is checked. -/
private theorem assembleImmediate_eq_error {f : Form} (h : assembleImmediate f x s = .error e s') :
    e.Of x.tokens [] ∧ (s' = s ∨ s' = s.emit (opcodeBytes f.opcode)) := by
  have hwithin : ∀ {b : Bounds} {t : State} {g : Int → List UInt8},
      (within (s.value x) b x.next >>= fun n => emit (g n)) t = .error e s' → e.Of x.tokens [] ∧ s' = t := by
    intro b t g h
    obtain h | ⟨_, _, -, h⟩ := bind_eq_error.1 h
    · obtain ⟨rfl, rfl⟩ := within_eq_error h
      exact ⟨.refused rfl (List.mem_cons_self ..) (.inr x.next_le), rfl⟩
    · cases h
  obtain h | ⟨v, t, hv, h⟩ := bind_eq_error.1 h
  · obtain ⟨he, rfl⟩ := evaluate_eq_error h
    exact ⟨he, .inl rfl⟩
  · obtain ⟨ht, rfl, -⟩ := evaluate_eq_ok.1 hv
    subst t
    obtain h | ⟨_, t, ht, h⟩ := bind_eq_error.1 h
    · cases h
    · have ht' := emit_eq_ok.1 ht
      split at h
      · obtain ⟨he, rfl⟩ := hwithin h
        exact ⟨he, .inr ht'⟩
      · obtain ⟨he, rfl⟩ := hwithin h
        exact ⟨he, .inr ht'⟩

private theorem assembleDirect_eq_error {f : Form} (h : assembleDirect f x s = .error e s') :
    e.Of x.tokens [] ∧ s' = s := by
  obtain h | ⟨v, t, hv, h⟩ := bind_eq_error.1 h
  · exact evaluate_eq_error h
  · obtain ⟨rfl, rfl, -⟩ := evaluate_eq_ok.1 hv
    rw [get_bind] at h
    split at h
    · obtain ⟨rfl, rfl⟩ := refuse_eq_error h
      exact ⟨.refused rfl (List.mem_cons_self ..) (.inr x.next_le), rfl⟩
    · cases h

private theorem assemble_eq_error {i : Instruction} (h : i.assemble m mnemonic next s = .error e s') :
    e.Of (mnemonic :: i.tokens) [next] ∧ Action.Leaves s (.instruct m mnemonic i next) s' := by
  have hexpr : ∀ {i : Instruction} {x : Expr}, i.tokens = [x].flatMap Expr.tokens → e.Of x.tokens [] →
      e.Of (mnemonic :: i.tokens) [next] := by
    intro i x hi he
    refine he.mono (fun t ht => List.mem_cons_of_mem _ ?_) (by simp)
    rw [hi]
    simpa using ht
  cases i with
  | inherent => cases h
  | transfer => cases h
  | stack => cases h
  | branch f name target =>
    obtain ⟨he, rfl⟩ := assembleBranch_eq_error h
    exact ⟨he.mono (fun t ht => List.mem_cons_of_mem _ ht) (by simp), .same _⟩
  | immediate f x =>
    obtain ⟨he, rfl | rfl⟩ := assembleImmediate_eq_error h
    · exact ⟨hexpr rfl he, .same _⟩
    · exact ⟨hexpr rfl he, .opcode f⟩
  | direct f x =>
    obtain ⟨he, rfl⟩ := assembleDirect_eq_error h
    exact ⟨hexpr rfl he, .same _⟩
  | extended f x =>
    obtain ⟨he, rfl⟩ := evaluate_within_eq_error (fun _ _ _ _ h => by cases h) h
    exact ⟨hexpr rfl (he.mono (fun _ ht => ht) (by simpa using x.next_le)), .same _⟩
  | address x =>
    obtain ⟨he, rfl | rfl⟩ := assembleAddress_eq_error h
    · exact ⟨he.mono (by simp [tokens, expr?]) (by simp), .same _⟩
    · exact ⟨he.mono (by simp [tokens, expr?]) (by simp), .chosen rfl⟩
  | pointer f x =>
    obtain ⟨he, rfl⟩ := evaluate_within_eq_error (fun _ _ _ _ h => by cases h) h
    exact ⟨he.mono (by simp +contextual [tokens, expr?]) fun i hi => .inl hi, .same _⟩
  | indexed f operand indirect =>
    obtain ⟨he, rfl⟩ := assembleIndexed_eq_error h
    exact ⟨he.mono (fun t ht => List.mem_cons_of_mem _ ht) fun i hi => .inl hi, .same _⟩

end Instruction

/-! ### Actions -/

private theorem defineConstant_eq_error {name : String} {place : Token} {x : Expr}
    (h : defineConstant name place x s = .error e s') : e.Of (place :: x.tokens) [] ∧ s' = s := by
  have hmem : ∀ t ∈ x.tokens, t ∈ place :: x.tokens := fun t ht => List.mem_cons_of_mem _ ht
  obtain ⟨u, hu, hnext⟩ := x.next_le
  obtain h | ⟨v, t, hv, h⟩ := bind_eq_error.1 h
  · obtain ⟨he, rfl⟩ := evaluate_eq_error h
    exact ⟨he.mono hmem (by simp), rfl⟩
  · obtain ⟨ht, rfl, -⟩ := evaluate_eq_ok.1 hv
    subst t
    rw [get_bind] at h
    rcases hn : s.symbols.constants.binding? name with _ | old
    · simp only [Symbols.defineConstant, Bindings.define, hn, Except.map] at h
      cases h
    · simp only [Symbols.defineConstant, Bindings.define, hn, Except.map] at h
      obtain h | ⟨_, _, h, -⟩ := bind_eq_error.1 h
      · obtain ⟨rfl, rfl⟩ := refuse_eq_error h
        exact ⟨.refused rfl (List.mem_cons_self ..) (.inr ⟨u, hmem u hu, hnext⟩), rfl⟩
      · exact absurd h refuse_ne_ok

private theorem reserveVariables_eq_error {place : Token} {size : Expr} {count : Option Expr}
    (h : reserveVariables place size count s = .error e s') :
    e.Of (place :: (size :: count.toList).flatMap Expr.tokens) [] ∧ s' = s := by
  have hexpr : ∀ x ∈ size :: count.toList, ∀ t ∈ x.tokens, t ∈ place :: (size :: count.toList).flatMap Expr.tokens :=
    fun x hx t ht => List.mem_cons_of_mem _ (List.mem_flatMap.2 ⟨x, hx, ht⟩)
  have hblock : ∀ {n k : Int}, ((if Bounds.maxBlock < n * k then
      refuse (.blockTooLarge (n * k)) place (count.getD size).next else emitBlock 0 (n * k)) : Assemble Unit) s =
        .error e s' → e.Of (place :: (size :: count.toList).flatMap Expr.tokens) [] ∧ s' = s := by
    intro n k h
    split at h
    · obtain ⟨rfl, rfl⟩ := refuse_eq_error h
      obtain ⟨u, hu, hnext⟩ := (count.getD size).next_le
      have hlast : count.getD size ∈ size :: count.toList := by cases count <;> simp
      exact ⟨.refused rfl (List.mem_cons_self ..) (.inr ⟨u, hexpr _ hlast u hu, hnext⟩), rfl⟩
    · cases h
  obtain hsize | ⟨n, t, hn, hrest⟩ := bind_eq_error.1 h
  · obtain ⟨he, rfl⟩ := bounded_eq_error hsize
    exact ⟨he.mono (hexpr size (List.mem_cons_self ..)) (by simp), rfl⟩
  · cases (bounded_eq_ok.1 hn).1
    cases count with
    | none => exact hblock hrest
    | some c =>
      obtain hcount | ⟨k, t, hk, hrest⟩ := bind_eq_error.1 hrest
      · obtain ⟨he, rfl⟩ := bounded_eq_error hcount
        exact ⟨he.mono (hexpr c (by simp)) (by simp), rfl⟩
      · cases (bounded_eq_ok.1 hk).1
        exact hblock hrest

private theorem emitText_eq_error {cell : Cell} {t : String} {place : Token}
    (h : emitText cell t place s = .error e s') : e.Of [place] [] ∧ s' = s := by
  unfold emitText at h
  rcases hc : t.toList.find? fun c => 0xFF < c.toNat with _ | c
  · simp only [hc] at h
    cases h
  · simp only [hc] at h
    obtain ⟨rfl, rfl⟩ := refuse_eq_error h
    exact ⟨.refused rfl (List.mem_singleton_self _) (.inr ⟨place, List.mem_singleton_self _, Nat.le_refl _⟩), rfl⟩

/-- To evaluate, check the bounds and go on with something that does not fail. -/
private theorem bounded_bind_eq_error {α : Type} {x : Expr} {b : Bounds} {required : Bool} {g : Int → Assemble α}
    (hg : ∀ n t u, g n t ≠ .error e u) (h : (bounded x b required >>= g) s = .error e s') :
    e.Of ([x].flatMap Expr.tokens) [] ∧ s' = s := by
  obtain h | ⟨n, t, -, h⟩ := bind_eq_error.1 h
  · obtain ⟨he, rfl⟩ := bounded_eq_error h
    exact ⟨he.mono (by simp) (by simp), rfl⟩
  · exact absurd h (hg n t s')

/-- An action that fails is refused at one of its tokens and leaves the symbols as they are. -/
theorem Action.run_eq_error {a : Action} (h : a.run s = .error e s') :
    e.Of a.tokens a.following ∧ a.Leaves s s' := by
  have hsame : ∀ {a : Action}, a.following = [] → e.Of a.tokens [] ∧ s' = s →
      e.Of a.tokens a.following ∧ a.Leaves s s' := by
    intro a ha he
    rw [ha, he.2]
    exact ⟨he.1, .same a⟩
  cases a with
  | define name place x => exact hsame rfl (defineConstant_eq_error h)
  | origin x => exact hsame rfl (bounded_bind_eq_error (fun _ _ _ h => by cases h) h)
  | page x => exact hsame rfl (bounded_bind_eq_error (fun _ _ _ h => by cases h) h)
  | reserve x => exact hsame rfl (bounded_bind_eq_error (fun _ _ _ h => by cases h) h)
  | reserveMany place size count => exact hsame rfl (reserveVariables_eq_error h)
  | fill x count =>
    refine hsame rfl ?_
    obtain hvalue | ⟨n, t, hn, hcount⟩ := bind_eq_error.1 h
    · obtain ⟨he, rfl⟩ := bounded_eq_error hvalue
      exact ⟨he.mono (by simp +contextual [tokens, exprs]) (by simp), rfl⟩
    · cases (bounded_eq_ok.1 hn).1
      obtain ⟨he, rfl⟩ := bounded_bind_eq_error (fun _ _ _ h => by cases h) hcount
      exact ⟨he.mono (by simp +contextual [tokens, exprs]) (by simp), rfl⟩
  | check x b required => exact hsame rfl (bounded_bind_eq_error (fun _ _ _ h => by cases h) h)
  | text cell t place => exact hsame rfl (emitText_eq_error h)
  | value cell x => exact hsame rfl (bounded_bind_eq_error (fun _ _ _ h => by cases h) h)
  | terminator => cases h
  | instruct m mnemonic i next => exact Instruction.assemble_eq_error h
  | stop => cases h

/-- Actions fail in one of them, after those in front of it. -/
private theorem Action.forM_run_eq_error {as : List Action} (h : as.forM Action.run s = .error e s') :
    ∃ front a rest t, as = front ++ a :: rest ∧ DoAll s front t ∧ a.run t = .error e s' := by
  induction as generalizing s with
  | nil => cases h
  | cons a as ih =>
    have h' : (a.run >>= fun _ => as.forM Action.run) s = .error e s' := h
    obtain h' | ⟨_, t, hr, h'⟩ := bind_eq_error.1 h'
    · exact ⟨[], a, as, s, rfl, .nil s, h'⟩
    · obtain ⟨front, b, rest, u, rfl, hd, hb⟩ := ih h'
      exact ⟨a :: front, b, rest, u, rfl, .cons (Action.run_eq_ok.1 hr) hd, hb⟩

end Action

/-! ### Statements -/

/-- How a label goes wrong: the first pass knows it already, or the second one is elsewhere or does not know it. -/
inductive State.Mislabels (s : State) (name : String) (place : Token) : Failure → Prop
  | twice {old : Binding} (hp : s.pass = .first) (h : s.symbols.labels.binding? name = some old) :
      Mislabels s name place (.refused (.duplicateSymbol name old.place) place (place.index + 1))
  | elsewhere {address : Int} (hp : s.pass = .second) (h : s.symbols.labels.value? name = some address)
      (hne : address ≠ s.pc) :
      Mislabels s name place (.refused (.phaseError name address s.pc) place (place.index + 1))
  | unbound (hp : s.pass = .second) (h : s.symbols.labels.value? name = none) :
      Mislabels s name place (.unboundLabel name)

/-- Where a statement that fails breaks off. -/
inductive Statement.Breaks (s : State) (st : Statement) (e : Failure) : State → Prop
  | label {name : String} {place : Token} (hl : st.label = some (name, place)) (h : s.Mislabels name place e) :
      Breaks s st e s
  | action {front rest : List Action} {a : Action} {t u s' : State} (hl : s.Labels st.label t)
      (ha : st.actions = front ++ a :: rest) (hd : Action.DoAll t front u) (hr : a.run u = .error e s')
      (hc : s.pass = .second → st.constants = false) : Breaks s st e s'
  | fault {f : Fault} {t u s' : State} (hl : s.Labels st.label t) (hd : Action.DoAll t st.actions u)
      (hf : st.fault = some f) (hr : (fail f : Assemble Unit) u = .error e s')
      (hc : s.pass = .second → st.constants = false) : Breaks s st e s'

section Statement

variable {s s' : State} {e : Failure} {st : Statement}

theorem bindLabel_eq_error {name : String} {place : Token} (h : bindLabel name place s = .error e s') :
    s.Mislabels name place e ∧ s' = s := by
  rw [bindLabel, get_bind] at h
  rcases hp : s.pass with _ | _
  · rcases hn : s.symbols.labels.binding? name with _ | old
    · simp only [hp, Symbols.defineLabel, Bindings.define, hn, Except.map] at h
      cases h
    · simp only [hp, Symbols.defineLabel, Bindings.define, hn, Except.map] at h
      obtain ⟨rfl, rfl⟩ := refuse_eq_error h
      exact ⟨.twice hp hn, rfl⟩
  · rcases hv : s.symbols.labels.value? name with _ | address
    · simp only [hp, hv] at h
      cases h
      exact ⟨.unbound hp hv, rfl⟩
    · simp only [hp, hv] at h
      split at h
      · cases h
      · next hne =>
        obtain ⟨rfl, rfl⟩ := refuse_eq_error h
        exact ⟨.elsewhere hp hv hne, rfl⟩

/-- A statement that fails breaks off at its label, in one of its actions or at its fault. -/
theorem Statement.breaks_of_run (h : st.run s = .error e s') : st.Breaks s e s' := by
  rw [run_eq_bind] at h
  obtain h | ⟨_, t, hl, h⟩ := bind_eq_error.1 h
  · rcases hlabel : st.label with _ | ⟨name, place⟩
    · simp only [hlabel] at h
      cases h
    · simp only [hlabel] at h
      obtain ⟨hbad, rfl⟩ := bindLabel_eq_error h
      exact .label hlabel hbad
  · replace hl := label_eq_ok.1 hl
    obtain h | ⟨_, u, -, h⟩ := bind_eq_error.1 h
    · split at h
      · cases h
      · next hc =>
        have hc' : s.pass = .second → st.constants = false := by
          intro hp
          simpa [hp] using hc
        obtain h | ⟨_, u, hd, h⟩ := bind_eq_error.1 h
        · obtain ⟨front, a, rest, u, ha, hd, hr⟩ := Action.forM_run_eq_error h
          exact .action hl ha hd hr hc'
        · rcases hf : st.fault with _ | f
          · simp only [hf] at h
            cases h
          · simp only [hf] at h
            exact .fault hl (Action.forM_run_eq_ok.1 hd) hf h hc'
    · split at h <;> cases h

/-- A statement without a fault whose label is in its place does not fail with a phase error. -/
theorem Statement.inPhase_of_labels {t : State} (hl : s.Labels st.label t) (hf : st.fault = none)
    (h : st.run s = .error e s') : e.isPhaseError = false := by
  cases breaks_of_run h with
  | label hlabel hbad =>
    rw [hlabel] at hl
    cases hbad with
    | twice => rfl
    | unbound => rfl
    | elsewhere hp hv hne =>
      have hfound := hl.value?_of_second hp
      rw [hv, Option.some.injEq] at hfound
      exact absurd hfound hne
  | action _ _ _ hr => exact (Action.run_eq_error hr).1.inPhase
  | fault _ _ hf' =>
    rw [hf] at hf'
    cases hf'

namespace Statement.Breaks

/-- A statement fails with an unbound label only if its own label is unbound in the second pass. -/
theorem unbound {name : String} (h : st.Breaks s (.unboundLabel name) s') :
    ∃ place, st.label = some (name, place) ∧ s.pass = .second ∧ s.symbols.labels.value? name = none := by
  cases h with
  | label hl hbad =>
    cases hbad with
    | unbound hp hv => exact ⟨_, hl, hp, hv⟩
  | action _ _ _ hr => cases (Action.run_eq_error hr).1
  | fault _ _ _ hr =>
    obtain h | ⟨_, _, -, h⟩ := bind_eq_error.1 hr
    · cases (demand_eq_error h).1
    · cases h

/-- Any other failure of a statement is a refusal on its line. -/
theorem on {l : Line} (h : st.Breaks s e s') (hn : ∀ name, e ≠ .unboundLabel name) (hl : l.statement? = some st)
    (hb : Precede l.body l.stop) : e.On l.stop l.body := by
  obtain ⟨hactions, hfaults⟩ := Line.within_of_statement? hb hl
  cases h with
  | label hlabel hbad =>
    obtain ⟨hfirst, hplace⟩ := Line.label_of_statement? hl
    cases ((hplace _ _).1 hlabel).2
    have hbefore := hb _ hfirst
    cases hbad with
    | twice => exact .refused (.inl hfirst) hbefore
    | elsewhere => exact .refused (.inl hfirst) hbefore
    | unbound => exact absurd rfl (hn _)
  | @action front rest a _ _ _ _ ha _ hr =>
    have hin := hactions a (by rw [ha]; simp)
    exact (Action.run_eq_error hr).1.on hin.tokens hin.following hb
  | fault _ _ hf hr =>
    have hin := hfaults _ hf
    obtain h | ⟨_, _, -, h⟩ := bind_eq_error.1 hr
    · refine (demand_eq_error h).1.on (fun t ht => ?_) (by simp) hb
      obtain ⟨x, hx, rfl⟩ := List.mem_map.1 ht
      exact hin.seen x hx
    · obtain ⟨rfl, -⟩ := refuse_eq_error h
      exact .refused hin.token hin.index

end Statement.Breaks

end Statement

end Mc6809
