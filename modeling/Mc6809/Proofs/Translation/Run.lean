import Mc6809.Proofs.Assembly.Displacement
import Mc6809.Proofs.Translation.Reading
import Mc6809.Proofs.Walk

/-!
# Running a translation

A translated state has the same bytes and addresses under other names (`State.translate`).  Steps from a state and
steps of the translated program from the translated state lead to translated states again and return the same up to
translation (`Assemble.Translates`).  This is kept by sequencing, so it holds for statements, lines, walks and runs
(`run_translate`), also behind lines that lead to translated states (`run_translate_behind`).  Failures are translated,
too, except that other names may be suggested for an undefined one.
-/

namespace Mc6809

open Assemble

/-! ### Translated states -/

def Binding.translate (τ : Translation) (b : Binding) : Binding :=
  ⟨τ.name b.name, b.value, Location.translate? τ b.name b.place⟩

def Symbols.translate (τ : Translation) (symbols : Symbols) : Symbols :=
  ⟨symbols.labels.map (Binding.translate τ), symbols.constants.map (Binding.translate τ)⟩

def Row.translate (τ : Translation) (r : Row) : Row :=
  { r with line := τ.line r.line }

def Note.translate (τ : Translation) : Note → Note
  | constant name value => constant (τ.name name) value
  | terminator d line => terminator d (τ.line line)
  | n => n

def State.translate (τ : Translation) (s : State) : State :=
  { s with
    symbols := s.symbols.translate τ
    widths := s.widths.map fun p => (τ.key p.1, p.2)
    listing := (τ.rows ++ (s.listing.map (Row.translate τ)).toList).toArray
    notes := τ.notes ++ s.notes.map (Note.translate τ) }

def Failure.translate (τ : Translation) : Failure → Failure
  | refused problem token index => refused (problem.translate τ) (token.translate τ) (index + τ.shift)
  | unboundLabel name => unboundLabel (τ.name name)

/-- Failures that are the same except for the names they suggest. -/
inductive Failure.Alike : Failure → Failure → Prop
  | refl (e : Failure) : Alike e e
  | suggestions (name : String) (similar similar' : List String) (token : Token) (index : Nat) :
      Alike (refused (.undefinedSymbol name similar) token index)
        (refused (.undefinedSymbol name similar') token index)

section

variable {τ : Translation}

/-- Failures that are alike are of the same kind, at the same token. -/
private theorem Failure.Alike.of_refused {p : Problem} {t : Token} {i : Nat} {e : Failure}
    (h : (refused p t i).Alike e) :
    ∃ p', e = refused p' t i ∧ p'.diagnosis.kind = p.diagnosis.kind := by
  cases h with
  | refl => exact ⟨p, rfl, rfl⟩
  | suggestions => exact ⟨_, rfl, rfl⟩

private theorem lookup_map_key {β : Type} (τ : Translation) (key : Int) (ps : List (Int × β)) :
    (ps.map fun p => (τ.key p.1, p.2)).lookup (τ.key key) = ps.lookup key := by
  induction ps with
  | nil => rfl
  | cons p ps ih =>
    have hkey : (τ.key key == τ.key p.1) = (key == p.1) := by
      by_cases h : key = p.1
      · simp [h]
      · have hne : τ.key key ≠ τ.key p.1 := fun hk => h (τ.key_injective hk)
        rw [beq_eq_false_iff_ne.2 hne, beq_eq_false_iff_ne.2 h]
    rw [List.map_cons, List.lookup_cons, List.lookup_cons, hkey, ih]

private theorem assign_map_key {β : Type} (τ : Translation) (key : Int) (value : β) (ps : List (Int × β)) :
    assign (τ.key key) value (ps.map fun p => (τ.key p.1, p.2)) =
      (assign key value ps).map fun p => (τ.key p.1, p.2) := by
  induction ps with
  | nil => rfl
  | cons p ps ih =>
    simp only [List.map_cons, assign, τ.key_injective.eq_iff, ih]
    split <;> rfl

namespace Bindings

private theorem binding?_translate (t : Bindings) (name : String) :
    binding? (t.map (Binding.translate τ)) (τ.name name) = (t.binding? name).map (Binding.translate τ) := by
  unfold binding?
  rw [List.find?_map]
  have hname : (fun b : Binding => decide (b.name = τ.name name)) ∘ Binding.translate τ =
      fun b => decide (b.name = name) := by
    funext b
    simp [Binding.translate, τ.name_injective.eq_iff]
  rw [hname]

private theorem value?_translate (t : Bindings) (name : String) :
    value? (t.map (Binding.translate τ)) (τ.name name) = t.value? name := by
  unfold value?
  rw [binding?_translate, Option.map_map]
  rfl

private theorem define_translate (t : Bindings) (b : Binding) :
    define (t.map (Binding.translate τ)) (b.translate τ) =
      ((t.define b).map (List.map (Binding.translate τ))).mapError (Location.translate? τ b.name) := by
  unfold define
  have hold : binding? (t.map (Binding.translate τ)) (b.translate τ).name = _ := binding?_translate t b.name
  rw [hold]
  rcases hb : t.binding? b.name with _ | old
  · have hnew : List.map (Binding.translate τ) (t ++ [b]) = _ := List.map_append
    exact congrArg Except.ok hnew.symm
  · have hname : old.name = b.name := by simpa using List.find?_some hb
    rw [← hname]
    rfl

end Bindings

private theorem Symbols.resolve_translate (symbols : Symbols) (name : String) :
    (symbols.translate τ).resolve (τ.name name) = symbols.resolve name := by
  simp only [resolve, translate, Bindings.value?_translate]

/-! ### Translated values -/

private theorem Atom.value?_translate (symbols : Symbols) (a : Atom) :
    (a.translate τ).value? (symbols.translate τ) = a.value? symbols := by
  cases a with
  | number n => rfl
  | symbol name => exact symbols.resolve_translate name

private theorem Term.undefined?_translate (symbols : Symbols) (t : Term) :
    (t.translate τ).undefined? (symbols.translate τ) = (t.undefined? symbols).map τ.name := by
  unfold undefined? translate
  cases t.atom with
  | number n => rfl
  | symbol name =>
    simp only [Atom.translate, Symbols.resolve_translate]
    split <;> rfl

private theorem firstUndefined?_translate (symbols : Symbols) (terms : List Term) :
    firstUndefined? (symbols.translate τ) (terms.map (Term.translate τ)) =
      (firstUndefined? symbols terms).map fun p => (τ.name p.1, p.2.translate τ) := by
  unfold firstUndefined?
  induction terms with
  | nil => rfl
  | cons t ts ih =>
    simp only [List.map_cons, List.findSome?_cons, Term.undefined?_translate, ih]
    cases t.undefined? symbols <;> rfl

private theorem Expr.value_translate (e : Expr) (symbols : Symbols) (placeholder : Int) :
    (e.translate τ).value (symbols.translate τ) placeholder = (e.value symbols placeholder).translate τ := by
  have hamount : Term.amount (symbols.translate τ) placeholder ∘ Term.translate τ =
      Term.amount symbols placeholder := by
    funext t
    simp only [Function.comp, Term.amount, Term.translate, Atom.value?_translate]
  have hsettled : ((fun t => (Term.undefined? (symbols.translate τ) t).isNone) ∘ Term.translate τ) =
      fun t => (Term.undefined? symbols t).isNone := by
    funext t
    simp [Function.comp, Term.undefined?_translate]
  simp only [value, Value.translate, terms_translate, List.map_map, List.all_map, hamount, hsettled]
  rfl

end

/-! ### Translated steps -/

namespace Assemble

/-- Results that are the same up to translation. -/
inductive Translated {α : Type} (τ : Translation) (g : α → α) :
    EStateM.Result Failure State α → EStateM.Result Failure State α → Prop
  | ok (a : α) (s : State) : Translated τ g (.ok a s) (.ok (g a) (s.translate τ))
  | error {e e' : Failure} (s : State) (h : (e.translate τ).Alike e') :
      Translated τ g (.error e s) (.error e' (s.translate τ))

/-- A step from a state and another one from the translated state come to the same up to translation. -/
def Translates {α : Type} (τ : Translation) (g : α → α) (x y : Assemble α) : Prop :=
  ∀ s : State, Translated τ g (x s) (y (s.translate τ))

namespace Translates

variable {τ : Translation} {α β : Type} {g : α → α} {k : β → β} {x y : Assemble α} {f f' : α → Assemble β}

private theorem bind (hx : Translates τ g x y) (hf : ∀ a, Translates τ k (f a) (f' (g a))) :
    Translates τ k (x >>= f) (y >>= f') := by
  intro s
  show Translated τ k (EStateM.bind x f s) (EStateM.bind y f' (s.translate τ))
  have h := hx s
  unfold EStateM.bind
  generalize x s = r, y (s.translate τ) = r' at h
  cases h with
  | ok a t => exact hf a t
  | error t h => exact .error t h

private theorem pure (a : α) : Translates τ g (Pure.pure a) (Pure.pure (g a)) :=
  fun s => .ok a s

private theorem refuse (problem : Problem) (t : Token) (i : Nat) :
    Translates τ g (Assemble.refuse problem t i)
      (Assemble.refuse (problem.translate τ) (t.translate τ) (i + τ.shift)) :=
  fun s => .error s (.refl _)

private theorem get : Translates τ (State.translate τ) get get :=
  fun s => .ok s s

private theorem set (s : State) : Translates τ id (set s) (set (s.translate τ)) :=
  fun _ => .ok _ s

private theorem modify {h h' : State → State} (he : ∀ s : State, h' (s.translate τ) = (h s).translate τ) :
    Translates τ id (modify h) (modify h') := by
  intro s
  show Translated τ id (.ok () (h s)) (.ok () (h' (s.translate τ)))
  rw [he]
  exact .ok () (h s)

private theorem note (n : Note) : Translates τ id (Assemble.note n) (Assemble.note (n.translate τ)) :=
  modify fun s => by simp [State.note, State.translate]

private theorem emit (bytes : List UInt8) : Translates τ id (Assemble.emit bytes) (Assemble.emit bytes) :=
  modify fun _ => rfl

private theorem choose {key : Int} (width : Int) :
    Translates τ id (Assemble.choose key width) (Assemble.choose (τ.key key) width) := by
  intro s
  show Translated τ id (.ok (s.choose key width).1 (s.choose key width).2)
    (.ok ((s.translate τ).choose (τ.key key) width).1 ((s.translate τ).choose (τ.key key) width).2)
  have hchoose : (s.translate τ).choose (τ.key key) width =
      ((s.choose key width).1, (s.choose key width).2.translate τ) := by
    simp only [State.choose, State.translate, lookup_map_key, assign_map_key]
    split <;> rfl
  rw [hchoose]
  exact .ok _ _

private theorem demand (terms : List Term) (required : Bool) :
    Translates τ id (Assemble.demand terms required)
      (Assemble.demand (terms.map (Term.translate τ)) required) := by
  refine bind get fun s => ?_
  have hpass : (s.translate τ).pass = s.pass := rfl
  have hundefined : firstUndefined? (s.translate τ).symbols (terms.map (Term.translate τ)) = _ :=
    firstUndefined?_translate s.symbols terms
  rw [hpass, hundefined]
  split
  · rcases firstUndefined? s.symbols terms with _ | ⟨name, token⟩
    · exact pure ()
    -- The suggestions depend on how the names are spelled.
    · refine fun t => .error t ?_
      have hindex : (token.translate τ).index + 1 = token.index + 1 + τ.shift := Nat.add_right_comm ..
      simp only [hindex]
      exact .suggestions ..
  · exact pure ()

private theorem fail (f : Fault) : Translates τ g (Assemble.fail f) (Assemble.fail (f.translate τ)) :=
  bind (demand f.seen f.required) fun _ => refuse _ _ _

private theorem evaluate (e : Expr) (required : Bool) :
    Translates τ (Value.translate τ) (Assemble.evaluate e required)
      (Assemble.evaluate (e.translate τ) required) := by
  refine bind (demand e.terms required) fun _ => bind get fun s => ?_
  have hvalue : (e.translate τ).value (s.translate τ).symbols (s.translate τ).placeholder = _ :=
    e.value_translate s.symbols s.placeholder
  rw [hvalue]
  exact pure _

private theorem within (v : Value) (b : Bounds) (i : Nat) :
    Translates τ id (Assemble.within v b i) (Assemble.within (v.translate τ) b (i + τ.shift)) := by
  unfold Assemble.within
  have hsettled : (v.translate τ).settled = v.settled := rfl
  have htotal : (v.translate τ).total = v.total := rfl
  rw [hsettled, htotal]
  split
  · exact refuse _ _ _
  · exact pure _

private theorem bounded (e : Expr) (b : Bounds) (required : Bool) :
    Translates τ id (Assemble.bounded e b required) (Assemble.bounded (e.translate τ) b required) := by
  refine bind (evaluate e required) fun v => ?_
  rw [Expr.next_translate]
  exact within v b e.next

end Translates

end Assemble

variable {τ : Translation}

/-! ### Instructions -/

namespace Instruction

private theorem emitMachine_translates (f : Form) (o : Machine.Operand) :
    Translates τ id (emitMachine f o) (emitMachine f o) :=
  Translates.emit _

private theorem assembleBranch_translates (f : Form) (name : String) (target : Token) :
    Translates τ id (assembleBranch f name target) (assembleBranch f (τ.name name) (target.translate τ)) := by
  refine Translates.get.bind fun s => ?_
  have hresolve : (s.translate τ).symbols.resolve (τ.name name) = s.symbols.resolve name :=
    s.symbols.resolve_translate name
  have hpass : (s.translate τ).pass = s.pass := rfl
  have hpc : (s.translate τ).pc = s.pc := rfl
  have hindex : (target.translate τ).index + 1 = target.index + 1 + τ.shift := Nat.add_right_comm ..
  have hemit : ∀ o : Int, Translates τ id (emitMachine f (if f.operandSize = 2 then .word o else .byte o))
      (emitMachine f (if f.operandSize = 2 then .word o else .byte o)) := fun _ => emitMachine_translates _ _
  rw [hresolve, hpass, hpc, hindex]
  rcases s.symbols.resolve name with _ | v
  · dsimp only
    split
    · have hrefuse : Translates τ (id : Int → Int)
          (refuse (.undefinedSymbol name (s.symbols.similar name)) target (target.index + 1))
          (refuse (.undefinedSymbol (τ.name name) ((s.translate τ).symbols.similar (τ.name name)))
            (target.translate τ) (target.index + 1 + τ.shift)) := fun t => .error t (.suggestions ..)
      exact hrefuse.bind hemit
    · exact Translates.bind (g := id) (Translates.pure _) hemit
  · dsimp only
    split
    · exact Translates.bind (g := id) (Translates.pure _) hemit
    · exact Translates.bind (g := id) (Translates.refuse _ _ _) hemit

private theorem assembleImmediate_translates (f : Form) (e : Expr) :
    Translates τ id (assembleImmediate f e) (assembleImmediate f (e.translate τ)) := by
  refine (Translates.evaluate e false).bind fun v => (Translates.emit _).bind fun _ => ?_
  rw [Expr.next_translate]
  split
  · exact (Translates.within v _ _).bind fun _ => Translates.emit _
  · exact (Translates.within v _ _).bind fun _ => Translates.emit _

private theorem assembleDirect_translates (f : Form) (e : Expr) :
    Translates τ id (assembleDirect f e) (assembleDirect f (e.translate τ)) := by
  refine (Translates.evaluate e false).bind fun v => Translates.get.bind fun s => ?_
  have hvalue : (v.translate τ).settled = v.settled ∧ (v.translate τ).total = v.total := ⟨rfl, rfl⟩
  have hpage : (s.translate τ).onPage = s.onPage := rfl
  rw [hvalue.1, hvalue.2, hpage, Expr.next_translate]
  split
  · exact Translates.refuse _ _ _
  · exact emitMachine_translates _ _

private theorem assembleExtended_translates (f : Form) (e : Expr) :
    Translates τ id (assembleExtended f e) (assembleExtended f (e.translate τ)) := by
  refine (Translates.evaluate e false).bind fun v => ?_
  rw [Expr.next_translate]
  exact (Translates.within v _ _).bind fun _ => emitMachine_translates _ _

private theorem assembleAddress_translates (m : Mnemonic) {mnemonic : Token} (e : Expr)
    (hk : τ.key mnemonic.index = ((mnemonic.translate τ).index : Int)) :
    Translates τ id (assembleAddress m mnemonic e) (assembleAddress m (mnemonic.translate τ) (e.translate τ)) := by
  refine (Translates.evaluate e false).bind fun v => Translates.get.bind fun s => ?_
  have hvalue : (v.translate τ).settled = v.settled ∧ (v.translate τ).total = v.total := ⟨rfl, rfl⟩
  have hshort : (s.translate τ).isShort = s.isShort := rfl
  rw [hvalue.1, hvalue.2, hshort, Expr.next_translate, ← hk]
  refine (Translates.choose _).bind fun w => ?_
  dsimp only [id]
  split
  · cases m.form? .direct with
    | none => exact Translates.refuse _ _ _
    | some f => exact emitMachine_translates _ _
  · cases m.form? .extended with
    | none => exact Translates.refuse _ _ _
    | some f => exact (Translates.within v _ _).bind fun _ => emitMachine_translates _ _

private theorem assemblePointer_translates (f : Form) (e : Expr) (next : Nat) :
    Translates τ id (assemblePointer f e next) (assemblePointer f (e.translate τ) (next + τ.shift)) :=
  (Translates.evaluate e false).bind fun v => (Translates.within v _ _).bind fun _ => emitMachine_translates _ _

private theorem assembleIndexed_translates {key : Nat} (f : Form) (indirect : Bool) (next : Nat)
    (operand : IndexOperand) (hk : τ.key key = ((key + τ.shift : Nat) : Int)) :
    Translates τ id (assembleIndexed key f indirect next operand)
      (assembleIndexed (key + τ.shift) f indirect (next + τ.shift) (operand.translate τ)) := by
  cases operand with
  | noOffset r => exact emitMachine_translates _ _
  | accumulator acc r => exact emitMachine_translates _ _
  | stepping step r => exact emitMachine_translates _ _
  | offset e r =>
    refine (Translates.evaluate e false).bind fun v => (Translates.within v _ _).bind fun n => ?_
    rw [← hk]
    exact (Translates.choose _).bind fun w => emitMachine_translates _ _
  | counter e =>
    refine (Translates.evaluate e false).bind fun v => (Translates.within v _ _).bind fun n => ?_
    rw [← hk]
    exact (Translates.choose _).bind fun w => emitMachine_translates _ _
  | target e =>
    refine (Translates.evaluate e false).bind fun v => Translates.get.bind fun s => ?_
    rw [← hk]
    exact (Translates.choose _).bind fun w => emitMachine_translates _ _

private theorem assemble_translates (m : Mnemonic) {mnemonic : Token} (next : Nat) (i : Instruction)
    (hk : τ.key mnemonic.index = ((mnemonic.translate τ).index : Int)) :
    Translates τ id (i.assemble m mnemonic next)
      ((i.translate τ).assemble m (mnemonic.translate τ) (next + τ.shift)) := by
  cases i with
  | inherent f => exact emitMachine_translates _ _
  | branch f name target => exact assembleBranch_translates f name target
  | transfer f source target => exact emitMachine_translates _ _
  | stack f rs => exact emitMachine_translates _ _
  | immediate f e => exact assembleImmediate_translates f e
  | direct f e => exact assembleDirect_translates f e
  | extended f e => exact assembleExtended_translates f e
  | address e => exact assembleAddress_translates m e hk
  | pointer f e => exact assemblePointer_translates f e next
  | indexed f operand indirect => exact assembleIndexed_translates f indirect next operand hk

end Instruction

/-! ### Actions -/

private theorem emitBlock_translates (value count : Int) :
    Translates τ id (emitBlock value count) (emitBlock value count) :=
  Translates.emit _

private theorem defineConstant_translates (name : String) (place : Token) (e : Expr) :
    Translates τ id (defineConstant name place e)
      (defineConstant (τ.name name) (place.translate τ) (e.translate τ)) := by
  refine (Translates.evaluate e true).bind fun v => Translates.get.bind fun s => ?_
  have hdefine : Bindings.define (s.translate τ).symbols.constants
      ⟨τ.name name, v.total, some (place.translate τ).location⟩ = _ :=
    Bindings.define_translate s.symbols.constants ⟨name, v.total, some place.location⟩
  unfold Symbols.defineConstant
  rw [Expr.next_translate]
  dsimp only [Value.translate]
  rw [hdefine]
  cases Bindings.define s.symbols.constants ⟨name, v.total, some place.location⟩ with
  | ok t => exact (Translates.set _).bind fun _ => Translates.note _
  | error first => exact Translates.bind (g := id) (Translates.refuse _ _ _) fun _ => Translates.note _

private theorem setOrigin_translates (e : Expr) : Translates τ id (setOrigin e) (setOrigin (e.translate τ)) := by
  refine (Translates.bounded e .origin true).bind fun n => ?_
  exact Translates.bind (g := id) (Translates.modify fun _ => rfl) fun _ => Translates.note _

private theorem setPage_translates (e : Expr) : Translates τ id (setPage e) (setPage (e.translate τ)) := by
  refine (Translates.bounded e .page true).bind fun n => ?_
  exact Translates.bind (g := id) (Translates.modify fun _ => rfl) fun _ => Translates.note _

private theorem reserveVariables_translates (place : Token) (size : Expr) (count : Option Expr) :
    Translates τ id (reserveVariables place size count)
      (reserveVariables (place.translate τ) (size.translate τ) (count.map (Expr.translate τ))) := by
  refine (Translates.bounded size .variableSize true).bind fun n => ?_
  have hnext : ((count.map (Expr.translate τ)).getD (size.translate τ)).next = (count.getD size).next + τ.shift := by
    cases count <;> exact Expr.next_translate _
  have hrest : ∀ k : Int, Translates τ id
      (if Bounds.maxBlock < n * k then refuse (.blockTooLarge (n * k)) place (count.getD size).next
        else emitBlock 0 (n * k) : Assemble Unit)
      (if Bounds.maxBlock < n * k then
          refuse (.blockTooLarge (n * k)) (place.translate τ) ((count.getD size).next + τ.shift)
        else emitBlock 0 (n * k) : Assemble Unit) := by
    intro k
    split
    · exact Translates.refuse _ _ _
    · exact emitBlock_translates _ _
  rw [hnext]
  cases count with
  | none => exact Translates.bind (g := id) (Translates.pure _) hrest
  | some e => exact (Translates.bounded e .variableCount true).bind hrest

private theorem emitText_translates (cell : Cell) (t : String) (place : Token) :
    Translates τ id (emitText cell t place) (emitText cell t (place.translate τ)) := by
  have hindex : (place.translate τ).index + 1 = place.index + 1 + τ.shift := Nat.add_right_comm ..
  unfold emitText
  rw [hindex]
  split
  · exact Translates.refuse _ _ _
  · exact Translates.emit _

/-- The widths for the mnemonics of an action are recorded under the numbers of their translations. -/
def Action.Keyed (τ : Translation) : Action → Prop
  | instruct _ mnemonic _ _ => τ.key mnemonic.index = ((mnemonic.translate τ).index : Int)
  | _ => True

private theorem Action.run_translates {a : Action} (h : a.Keyed τ) : Translates τ id a.run (a.translate τ).run := by
  cases a with
  | define name place e => exact defineConstant_translates name place e
  | origin e => exact setOrigin_translates e
  | page e => exact setPage_translates e
  | reserve e => exact (Translates.bounded e .reservation true).bind fun _ => emitBlock_translates _ _
  | reserveMany place size count => exact reserveVariables_translates place size count
  | fill e count =>
    exact (Translates.bounded e .fillValue false).bind fun _ =>
      (Translates.bounded count .fillCount true).bind fun _ => emitBlock_translates _ _
  | check e b required =>
    exact (Translates.bounded e b required).bind fun _ => Translates.pure _
  | text cell t place => exact emitText_translates cell t place
  | value cell e => exact (Translates.bounded e cell.bounds false).bind fun _ => Translates.emit _
  | terminator d place => exact Translates.note _
  | instruct m mnemonic i next => exact Instruction.assemble_translates m next i h
  | stop => exact Translates.modify fun _ => rfl

/-! ### Statements -/

private theorem bindLabel_translates (name : String) (place : Token) :
    Translates τ id (bindLabel name place) (bindLabel (τ.name name) (place.translate τ)) := by
  refine Translates.get.bind fun s => ?_
  have hdefine : Bindings.define (s.translate τ).symbols.labels
      ⟨τ.name name, s.pc, some (place.translate τ).location⟩ = _ :=
    Bindings.define_translate s.symbols.labels ⟨name, s.pc, some place.location⟩
  have hvalue : (s.translate τ).symbols.labels.value? (τ.name name) = s.symbols.labels.value? name :=
    Bindings.value?_translate s.symbols.labels name
  have hpass : (s.translate τ).pass = s.pass := rfl
  have hpc : (s.translate τ).pc = s.pc := rfl
  have hindex : (place.translate τ).index + 1 = place.index + 1 + τ.shift := Nat.add_right_comm ..
  unfold Symbols.defineLabel
  rw [hpass, hpc, hdefine, hvalue, hindex]
  cases s.pass with
  | first =>
    dsimp only
    cases Bindings.define s.symbols.labels ⟨name, s.pc, some place.location⟩ with
    | ok t => exact Translates.set _
    | error first => exact Translates.refuse _ _ _
  | second =>
    dsimp only
    cases s.symbols.labels.value? name with
    | none => exact fun t => .error t (.refl _)
    | some address =>
      dsimp only
      split
      · exact Translates.pure _
      · exact Translates.refuse _ _ _

private theorem runActions_translates {as : List Action} (h : ∀ a ∈ as, a.Keyed τ) (fault : Option Fault) :
    Translates τ id (runActions as fault)
      (runActions (as.map (Action.translate τ)) (fault.map (Fault.translate τ))) := by
  have hall : Translates τ id (as.forM Action.run) ((as.map (Action.translate τ)).forM Action.run) := by
    induction as with
    | nil => exact Translates.pure _
    | cons a as ih =>
      exact (Action.run_translates (h a (List.mem_cons_self ..))).bind
        fun _ => ih fun b hb => h b (List.mem_cons_of_mem _ hb)
  refine hall.bind fun _ => ?_
  cases fault with
  | none => exact Translates.pure _
  | some f => exact Translates.fail f

private theorem Statement.run_translates {st : Statement} (h : ∀ a ∈ st.actions, a.Keyed τ) :
    Translates τ id st.run (st.translate τ).run := by
  intro s
  have hpass : (s.translate τ).pass = s.pass := rfl
  rw [run_eq_bind, run_eq_bind (s := s.translate τ), hpass]
  refine Translates.bind (g := id) ?_ (fun _ => Translates.bind (g := id) ?_ fun _ => ?_) s
  · rcases hl : st.label with _ | ⟨name, place⟩
    · simp only [Statement.translate, hl]
      exact Translates.pure _
    · simp only [Statement.translate, hl]
      exact bindLabel_translates name place
  · have hconstants : (st.translate τ).constants = st.constants := rfl
    rw [hconstants]
    split
    · exact Translates.pure _
    · exact runActions_translates h st.fault
  · split
    · refine Translates.modify fun t => ?_
      simp [State.record, State.translate, Row.translate, Statement.translate, Token.translate]
    · exact Translates.pure _

/-! ### Runs -/

/-- The tokens of a line are numbered like the keys of the widths that are recorded for them. -/
def Line.Keyed (τ : Translation) (l : Line) : Prop :=
  ∀ t ∈ l.body, τ.key t.index = ((t.translate τ).index : Int)

private theorem Line.run_translates {l : Line} (h : l.Keyed τ) : Translates τ id l.run (l.translate τ).run := by
  unfold Line.run
  rw [Line.statement?_translate]
  rcases hl : l.statement? with _ | st
  · exact Translates.pure _
  · refine Statement.run_translates fun a ha => ?_
    cases a with
    | instruct m mnemonic i next => exact h mnemonic (Line.instruct_mem hl ha).2.2.1
    | _ => trivial

namespace Translation

/-- The same translation with another distance for the numbers of tokens, which states do not depend on. -/
def shifted (τ : Translation) (n : Nat) : Translation :=
  { τ with shift := n }

/-- The same translation with other rows from an earlier part of the source. -/
def behind (τ : Translation) (rows : List Row) : Translation :=
  { τ with rows }

/-- Both of two runs fail or none does, and they fail in the same way up to translation. -/
inductive Fails (τ : Translation) : Option Failure → Option Failure → Prop
  | none : Fails τ none none
  | some {e e' : Failure} (n : Nat) (h : (e.translate (τ.shifted n)).Alike e') : Fails τ (some e) (some e')

/-- A refusal is translated to one of the same kind at the translated token. -/
theorem Fails.of_refused {p : Problem} {t : Token} {i : Nat} {e : Option Failure}
    (h : τ.Fails (Option.some (.refused p t i)) e) :
    ∃ n p' i', e = Option.some (.refused p' (t.translate (τ.shifted n)) i') ∧
      p'.diagnosis.kind = p.diagnosis.kind := by
  cases h with
  | some n h =>
    obtain ⟨p', rfl, hkind⟩ := h.of_refused
    exact ⟨n, p', _, rfl, hkind.trans (p.kind_translate _)⟩

theorem Fails.eq_none_iff {e e' : Option Failure} (h : τ.Fails e e') : e' = .none ↔ e = .none := by
  cases h <;> simp

/-- A line whose tokens are all shifted by the same distance. -/
def carry (τ : Translation) (p : Line × Nat) : Line :=
  p.1.translate (τ.shifted p.2)

end Translation

/-- A walk over translated lines from a translated state comes to the translated end. -/
private theorem walk_translate {ps : List (Line × Nat)} (h : ∀ p ∈ ps, p.1.Keyed (τ.shifted p.2)) (s : State) :
    (walk (s.translate τ) (ps.map τ.carry)).1 = (walk s (ps.map Prod.fst)).1.translate τ ∧
      τ.Fails (walk s (ps.map Prod.fst)).2 (walk (s.translate τ) (ps.map τ.carry)).2 := by
  induction ps generalizing s with
  | nil => exact ⟨rfl, .none⟩
  | cons p ps ih =>
    have hended : (s.translate τ).ended = s.ended := rfl
    have hrest := ih fun q hq => h q (List.mem_cons_of_mem _ hq)
    simp only [List.map_cons, walk, hended]
    split
    · exact ⟨rfl, .none⟩
    · have hl : Translated (τ.shifted p.2) id (p.1.run s) ((τ.carry p).run (s.translate τ)) :=
        Line.run_translates (h p (List.mem_cons_self ..)) s
      generalize p.1.run s = r, (τ.carry p).run (s.translate τ) = r' at hl ⊢
      cases hl with
      | ok _ t => exact hrest t
      | error t he => exact ⟨rfl, .some p.2 he⟩

namespace State

private theorem start_translate (h : τ.rows = []) (s : State) (p : Pass) :
    (s.translate τ).start p = (s.start p).translate τ := by
  simp [start, translate, h]

private theorem note_summary_translate (s : State) :
    (s.translate τ).note (s.translate τ).summary = (s.note s.summary).translate τ := by
  simp [note, summary, translate, Symbols.translate, Note.translate]

theorem turn_translate (h : τ.rows = []) (s : State) : (s.translate τ).turn = s.turn.translate τ := by
  rw [turn, note_summary_translate, start_translate h, turn]

end State

/-- A run over translated lines that stand behind others, in which the others lead to the translated states. -/
theorem run_translate_behind {ps : List (Line × Nat)} (h : ∀ p ∈ ps, p.1.Keyed (τ.shifted p.2)) {s s' : State}
    {front : List Line} {rows : List Row}
    (hfirst : walk (s'.start .first) front = ((s.start .first).translate τ, none))
    (hsecond : ∀ t, walk (s.start .first) (ps.map Prod.fst) = (t, none) →
      walk (t.translate τ).turn front = (t.turn.translate (τ.behind rows), none)) :
    ∃ σ : Translation, (σ = τ ∨ σ = τ.behind rows) ∧
      (run s' (front ++ ps.map τ.carry)).state = (run s (ps.map Prod.fst)).state.translate σ ∧
      σ.Fails (run s (ps.map Prod.fst)).failure (run s' (front ++ ps.map τ.carry)).failure := by
  obtain ⟨hstate₁, hfails₁⟩ := walk_translate h (s.start .first)
  unfold run
  rw [walk_append hfirst]
  generalize walk (s.start .first) (ps.map Prod.fst) = w₁, walk ((s.start .first).translate τ) (ps.map τ.carry) = w₁'
    at hstate₁ hfails₁ hsecond ⊢
  obtain ⟨t, e⟩ := w₁
  obtain ⟨t', e'⟩ := w₁'
  obtain rfl : t' = t.translate τ := hstate₁
  cases hfails₁ with
  | some n he => exact ⟨τ, .inl rfl, rfl, .some n he⟩
  | none =>
    refine ⟨τ.behind rows, .inr rfl, ?_⟩
    obtain ⟨hstate₂, hfails₂⟩ := walk_translate (τ := τ.behind rows) h t.turn
    have hcarry : ps.map τ.carry = ps.map (τ.behind rows).carry := rfl
    dsimp only
    rw [walk_append (hsecond t rfl), hcarry]
    generalize walk t.turn (ps.map Prod.fst) = w₂,
      walk (t.turn.translate (τ.behind rows)) (ps.map (τ.behind rows).carry) = w₂' at hstate₂ hfails₂ ⊢
    obtain ⟨u, e⟩ := w₂
    obtain ⟨u', e'⟩ := w₂'
    obtain rfl : u' = u.translate (τ.behind rows) := hstate₂
    cases hfails₂ with
    | some n he => exact ⟨rfl, .some n he⟩
    | none =>
      refine ⟨?_, .none⟩
      dsimp only
      rw [State.note_summary_translate]
      simp [State.note, State.translate, Note.translate]

/-- A run over translated lines from a translated state comes to the translated end. -/
theorem run_translate (hrows : τ.rows = []) {ps : List (Line × Nat)} (h : ∀ p ∈ ps, p.1.Keyed (τ.shifted p.2))
    (s : State) :
    (run (s.translate τ) (ps.map τ.carry)).state = (run s (ps.map Prod.fst)).state.translate τ ∧
      τ.Fails (run s (ps.map Prod.fst)).failure (run (s.translate τ) (ps.map τ.carry)).failure := by
  have hsame : τ.behind [] = τ := by
    cases τ
    cases hrows
    rfl
  have hfirst : walk ((s.translate τ).start .first) [] = ((s.start .first).translate τ, none) := by
    rw [State.start_translate hrows]
    rfl
  have hsecond : ∀ t, walk (s.start .first) (ps.map Prod.fst) = (t, none) →
      walk (t.translate τ).turn [] = (t.turn.translate (τ.behind []), none) := by
    intro t _
    rw [hsame, State.turn_translate hrows]
    rfl
  obtain ⟨σ, hσ, hrun⟩ := run_translate_behind h hfirst hsecond
  rw [hsame, or_self] at hσ
  subst hσ
  exact hrun

/-- A run over translated lines whose tokens keep their numbers. -/
theorem run_map_translate (hrows : τ.rows = []) (hshift : τ.shift = 0) (hkey : τ.key = id) (s : State)
    (ls : List Line) :
    (run (s.translate τ) (ls.map (Line.translate τ))).state = (run s ls).state.translate τ ∧
      τ.Fails (run s ls).failure (run (s.translate τ) (ls.map (Line.translate τ))).failure := by
  have hsame : τ.shifted 0 = τ := by
    rw [Translation.shifted, ← hshift]
  have hfst : (ls.map fun l => (l, 0)).map Prod.fst = ls := by
    simp [Function.comp_def]
  have hlines : (ls.map fun l => (l, 0)).map τ.carry = ls.map (Line.translate τ) := by
    rw [List.map_map]
    exact List.map_congr_left fun l _ => congrArg l.translate hsame
  have hkeyed : ∀ p ∈ ls.map fun l => (l, 0), p.1.Keyed (τ.shifted p.2) := by
    intro p hp t _
    obtain ⟨l, -, rfl⟩ := List.mem_map.1 hp
    rw [hsame, hkey, Token.index_translate, hshift]
    rfl
  have hrun := run_translate hrows hkeyed s
  rwa [hfst, hlines] at hrun

end Mc6809
