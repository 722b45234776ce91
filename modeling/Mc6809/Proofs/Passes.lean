import Mc6809.Proofs.Assembly.Failure
import Mc6809.Proofs.Line
import Mc6809.Proofs.Walk
import Mc6809.Session

/-!
# The second pass retraces the first

The second pass gets over lines of the first one only, with the symbols and the widths of its end
(`Walked.retraces`).  An instruction has the same size in both passes, since the second one finds the width that
the first one chose (`Instruction.Encodes.same_length`), and whatever else decides how far a statement goes has
to be defined in the first pass already.  So both passes go through the same places as long as symbols keep their
values (`Walked.lockstep`), which fails only where a constant takes the name of a label.
-/

namespace Mc6809

/-! ### Widths -/

namespace State

variable {s : State} {key own w : Int}

theorem width_of_first (hp : s.pass = .first) : s.width key own = own := by
  simp [width, choose, hp]

private theorem widthsWith_of_first (hp : s.pass = .first) : s.widthsWith key own = assign key own s.widths := by
  simp [widthsWith, choose, hp]

/-- A choice records no width but its own. -/
private theorem lookup_widthsWith_of_ne {key' : Int} (h : key' ≠ key) :
    (s.widthsWith key own).lookup key' = s.widths.lookup key' := by
  unfold widthsWith choose
  split
  · rfl
  · exact lookup_assign_of_ne h _ _

/-- The width in use is on record afterwards. -/
private theorem lookup_widthsWith (s : State) (key own : Int) :
    (s.widthsWith key own).lookup key = some (s.width key own) := by
  unfold widthsWith width choose
  split
  · next hw => exact hw
  · exact lookup_assign_self _ _ _

theorem width_of_recorded (hp : s.pass = .second) (hw : s.widths.lookup key = some w) : s.width key own = w := by
  simp [width, choose, hp, hw]

theorem width_of_unrecorded (h : s.widths.lookup key = none) (own : Int) : s.width key own = own := by
  simp [width, choose, h]

theorem widthsWith_of_recorded (hp : s.pass = .second) (hw : s.widths.lookup key = some w) :
    s.widthsWith key own = s.widths := by
  simp [widthsWith, choose, hp, hw]

end State

/-! ### Instructions -/

namespace Instruction

variable {m : Mnemonic} {key : Int} {s₁ s₂ : State} {i : Instruction} {ws₁ ws₂ : List (Int × Int)}
  {mi₁ mi₂ : Machine.Instruction}

/-- The second pass finds the width that the first one proposed. -/
private theorem width_again {own₁ own₂ : Int} (hp₁ : s₁.pass = .first) (hp₂ : s₂.pass = .second)
    (hw : ∀ w, (s₁.widthsWith key own₁).lookup key = some w → s₂.widths.lookup key = some w) :
    s₂.width key own₂ = s₁.width key own₁ ∧ s₂.widthsWith key own₂ = s₂.widths := by
  have hfound : s₂.widths.lookup key = some own₁ :=
    hw own₁ (by rw [State.widthsWith_of_first hp₁, lookup_assign_self])
  rw [State.width_of_first hp₁]
  exact ⟨State.width_of_recorded hp₂ hfound, State.widthsWith_of_recorded hp₂ hfound⟩

/-- An instruction has the same size in both passes, and the second one records no width. -/
theorem Encodes.same_length (h₁ : i.Encodes m key s₁ ws₁ mi₁) (h₂ : i.Encodes m key s₂ ws₂ mi₂)
    (hp₁ : s₁.pass = .first) (hp₂ : s₂.pass = .second)
    (hw : ∀ w, ws₁.lookup key = some w → s₂.widths.lookup key = some w) :
    mi₂.bytes.length = mi₁.bytes.length ∧ ws₂ = s₂.widths := by
  cases h₁ with
  | inherent => cases h₂; exact ⟨rfl, rfl⟩
  | transfer => cases h₂; exact ⟨rfl, rfl⟩
  | stack => cases h₂; exact ⟨rfl, rfl⟩
  | noOffset => cases h₂; exact ⟨rfl, rfl⟩
  | accumulator => cases h₂; exact ⟨rfl, rfl⟩
  | stepping => cases h₂; exact ⟨rfl, rfl⟩
  | direct => cases h₂; exact ⟨length_bytes rfl, rfl⟩
  | extended => cases h₂; exact ⟨length_bytes rfl, rfl⟩
  | pointer => cases h₂; exact ⟨length_bytes rfl, rfl⟩
  | branch => cases h₂; exact ⟨length_bytes (length_displacement ..), rfl⟩
  | immediate => cases h₂; exact ⟨length_bytes (length_immediate ..), rfl⟩
  -- From here on the form depends on the width, which the second pass finds where the first one recorded it.
  | shortAddress _ hone hf =>
    obtain ⟨hsame, hkeep⟩ := width_again hp₁ hp₂ hw
    cases h₂ with
    | shortAddress _ _ hf' =>
      rw [hf] at hf'
      cases hf'
      exact ⟨length_bytes rfl, hkeep⟩
    | longAddress _ hne => exact absurd (hsame.trans hone) hne
  | longAddress _ hne hf =>
    obtain ⟨hsame, hkeep⟩ := width_again hp₁ hp₂ hw
    cases h₂ with
    | shortAddress _ hone => exact absurd (hsame.symm.trans hone) hne
    | longAddress _ _ hf' =>
      rw [hf] at hf'
      cases hf'
      exact ⟨length_bytes rfl, hkeep⟩
  | offset =>
    obtain ⟨hsame, hkeep⟩ := width_again hp₁ hp₂ hw
    cases h₂
    rw [hsame]
    exact ⟨length_bytes (length_ofOffset ..), hkeep⟩
  | counter =>
    obtain ⟨hsame, hkeep⟩ := width_again hp₁ hp₂ hw
    cases h₂
    rw [hsame]
    exact ⟨length_bytes (length_ofCounter ..), hkeep⟩
  | target _ hw₁ =>
    obtain ⟨hsame, hkeep⟩ := width_again hp₁ hp₂ hw
    cases h₂ with
    | target _ hw₂ =>
      rw [hw₁, hw₂, hsame]
      exact ⟨length_bytes (length_ofCounter ..), hkeep⟩

/-- An instruction records no width but its own. -/
private theorem Encodes.lookup_widths (h : i.Encodes m key s₁ ws₁ mi₁) {key' : Int} (hk : key' ≠ key) :
    ws₁.lookup key' = s₁.widths.lookup key' := by
  cases h with
  | shortAddress => exact State.lookup_widthsWith_of_ne hk
  | longAddress => exact State.lookup_widthsWith_of_ne hk
  | offset => exact State.lookup_widthsWith_of_ne hk
  | counter => exact State.lookup_widthsWith_of_ne hk
  | target => exact State.lookup_widthsWith_of_ne hk
  | _ => rfl

theorem Encodes.lookup_width (h : i.Encodes m key s₁ ws₁ mi₁) {own : Int} (ho : i.ownWidth? m s₁ = some own) :
    ws₁.lookup key = some (s₁.width key own) := by
  cases h with
  | shortAddress =>
    cases ho
    exact s₁.lookup_widthsWith key _
  | longAddress =>
    cases ho
    exact s₁.lookup_widthsWith key _
  | offset =>
    cases ho
    exact s₁.lookup_widthsWith key _
  | counter =>
    cases ho
    exact s₁.lookup_widthsWith key _
  | target =>
    cases ho
    exact s₁.lookup_widthsWith key _
  | _ => cases ho

end Instruction

/-! ### Actions -/

/-- Two runs are at the same place. -/
structure State.Lockstep (s₁ s₂ : State) : Prop where
  pc : s₂.pc = s₁.pc
  dp : s₂.dp = s₁.dp
  ended : s₂.ended = s₁.ended

/-- The widths that a state has for the mnemonics among some tokens are those of another state. -/
def State.WidthsFrom (s t : State) (ts : List Token) : Prop :=
  ∀ mnemonic ∈ ts, t.widths.lookup (mnemonic.index : Int) = s.widths.lookup (mnemonic.index : Int)

/-- The tokens that the widths of an action are recorded for. -/
def Action.mnemonics : Action → List Token
  | instruct _ mnemonic _ _ => [mnemonic]
  | _ => []

variable {s₁ s₂ t₁ t₂ u₁ u₂ : State} {a : Action} {as : List Action}

private theorem State.Lockstep.emit (h : s₁.Lockstep s₂) {bytes₁ bytes₂ : List UInt8}
    (hl : bytes₂.length = bytes₁.length) : (s₁.emit bytes₁).Lockstep (s₂.emit bytes₂) := by
  refine ⟨?_, h.dp, h.ended⟩
  show s₂.pc + bytes₂.length = s₁.pc + bytes₁.length
  rw [h.pc, hl]

/-- A value that the first pass has to know is the same in the second one. -/
private theorem State.Bounded.same {b b' : Bounds} {required : Bool} {e : Expr} {n₁ n₂ : Int}
    (h₁ : s₁.Bounded true b e n₁) (h₂ : s₂.Bounded required b' e n₂) (hk : s₁.symbols.KeptIn s₂.symbols) :
    n₂ = n₁ := by
  have hv : s₂.value e = s₁.value e := Expr.value_of_keptIn hk (h₁.admits (.inl rfl)) _
  rw [h₂.total, h₁.total, hv]

namespace Action

private theorem Does.widths_again (h₁ : a.Does s₁ t₁) (h₂ : a.Does s₂ t₂) (hp₁ : s₁.pass = .first)
    (hp₂ : s₂.pass = .second) (hw : t₁.WidthsFrom s₂ a.mnemonics) : t₂.widths = s₂.widths := by
  cases h₂ with
  | instruct h' =>
    cases h₁ with
    | instruct h =>
      exact (h.same_length h' hp₁ hp₂ fun w hw' => (hw _ (List.mem_singleton_self _)).trans hw').2
  | _ => rfl

/-- An action that defines nothing takes both passes to the same place. -/
private theorem Does.lockstep (h₁ : a.Does s₁ t₁) (h₂ : a.Does s₂ t₂) (hd : a.defined? = none)
    (hs : s₁.Lockstep s₂) (hk : s₁.symbols.KeptIn s₂.symbols) (hp₁ : s₁.pass = .first) (hp₂ : s₂.pass = .second)
    (hw : t₁.WidthsFrom s₂ a.mnemonics) : t₁.Lockstep t₂ := by
  cases h₁ with
  | define => cases hd
  | origin h =>
    cases h₂ with
    | origin h' => exact ⟨h.same h' hk, hs.dp, hs.ended⟩
  | page h =>
    cases h₂ with
    | page h' => exact ⟨hs.pc, h.same h' hk, hs.ended⟩
  | reserve h =>
    cases h₂ with
    | reserve h' =>
      rw [h.same h' hk]
      exact hs.emit rfl
  | reserveOne h =>
    cases h₂ with
    | reserveOne h' =>
      rw [h.same h' hk]
      exact hs.emit rfl
  | reserveMany h hc =>
    cases h₂ with
    | reserveMany h' hc' =>
      rw [h.same h' hk, hc.same hc' hk]
      exact hs.emit rfl
  | fill _ hc =>
    cases h₂ with
    | fill _ hc' =>
      rw [hc.same hc' hk]
      exact hs.emit (by simp)
  | check => cases h₂; exact hs
  | text => cases h₂; exact hs.emit rfl
  | value => cases h₂; exact hs.emit (Cell.length_bytes ..)
  | terminator => cases h₂; exact ⟨hs.pc, hs.dp, hs.ended⟩
  | @instruct _ _ _ _ ws₁ _ h =>
    cases h₂ with
    | @instruct _ _ _ _ ws₂ _ h' =>
      obtain ⟨hl, -⟩ := h.same_length h' hp₁ hp₂ fun w hw' => (hw _ (List.mem_singleton_self _)).trans hw'
      have hs' : State.Lockstep { s₁ with widths := ws₁ } { s₂ with widths := ws₂ } := ⟨hs.pc, hs.dp, hs.ended⟩
      exact hs'.emit hl
  | stop => cases h₂; exact ⟨hs.pc, hs.dp, rfl⟩

/-- Definitions do not move a run. -/
private theorem DoAll.stays (h : DoAll s₁ as t₁) (hd : ∀ a ∈ as, a.defined?.isSome = true) :
    t₁.pc = s₁.pc ∧ t₁.dp = s₁.dp ∧ t₁.ended = s₁.ended := by
  induction h with
  | nil => exact ⟨rfl, rfl, rfl⟩
  | cons h _ ih =>
    obtain ⟨hpc, hdp, he⟩ := ih fun b hb => hd b (List.mem_cons_of_mem _ hb)
    have hd₀ := hd _ (List.mem_cons_self ..)
    cases h with
    | define => exact ⟨hpc, hdp, he⟩
    | _ => cases hd₀

private theorem mnemonics_of_isInstruct (h : a.isInstruct = false) : a.mnemonics = [] := by
  cases a with
  | instruct => cases h
  | _ => rfl

private theorem DoAll.lockstep_of_isInstruct (h₁ : DoAll s₁ as t₁) (h₂ : DoAll s₂ as t₂)
    (hd : ∀ a ∈ as, a.defined? = none) (hi : ∀ a ∈ as, a.isInstruct = false) (hs : s₁.Lockstep s₂)
    (hk : s₁.symbols.KeptIn s₂.symbols) (hp₁ : s₁.pass = .first) (hp₂ : s₂.pass = .second) :
    t₁.Lockstep t₂ := by
  induction h₁ generalizing s₂ with
  | nil =>
    cases h₂
    exact hs
  | cons h₁ hs₁ ih =>
    cases h₂ with
    | cons h₂ hs₂ =>
      have hd₀ := hd _ (List.mem_cons_self ..)
      have hnext := h₁.lockstep h₂ hd₀ hs hk hp₁ hp₂ (by
        rw [mnemonics_of_isInstruct (hi _ (List.mem_cons_self ..))]
        intro _ hm
        cases hm)
      refine ih hs₂ (fun b hb => hd b (List.mem_cons_of_mem _ hb)) (fun b hb => hi b (List.mem_cons_of_mem _ hb))
        hnext ?_ (h₁.frame.pass.trans hp₁) (h₂.frame.pass.trans hp₂)
      rw [h₁.symbols_of_defined? hd₀, h₂.symbols_of_defined? hd₀]
      exact hk

/-- The actions of a statement that defines no constants take both passes to the same place. -/
private theorem DoAll.lockstep (h₁ : DoAll s₁ as t₁) (h₂ : DoAll s₂ as t₂) (hg : Group false as)
    (hs : s₁.Lockstep s₂) (hk : s₁.symbols.KeptIn s₂.symbols) (hp₁ : s₁.pass = .first) (hp₂ : s₂.pass = .second)
    (hw : t₁.WidthsFrom s₂ (as.flatMap mnemonics)) : t₁.Lockstep t₂ := by
  have hd := hg.defined?_eq_none rfl
  rcases hg.instruct_cases with hi | ⟨m, mnemonic, i, next, rfl⟩
  · exact h₁.lockstep_of_isInstruct h₂ hd hi hs hk hp₁ hp₂
  · exact h₁.singleton.lockstep h₂.singleton rfl hs hk hp₁ hp₂ hw

private theorem DoAll.widths_again (h₁ : DoAll s₁ as t₁) (h₂ : DoAll s₂ as t₂) (hg : Group false as)
    (hp₁ : s₁.pass = .first) (hp₂ : s₂.pass = .second) (hw : t₁.WidthsFrom s₂ (as.flatMap mnemonics)) :
    t₂.widths = s₂.widths := by
  rcases hg.instruct_cases with hi | ⟨m, mnemonic, i, next, rfl⟩
  · exact h₂.widths_of_isInstruct hi
  · exact h₁.singleton.widths_again h₂.singleton hp₁ hp₂ hw

/-- Actions record widths for their mnemonics only. -/
private theorem DoAll.lookup_widths (h : DoAll s₁ as t₁) {c : Bool} (hg : Group c as) {key : Int}
    (hk : ∀ mnemonic ∈ as.flatMap mnemonics, key ≠ mnemonic.index) :
    t₁.widths.lookup key = s₁.widths.lookup key := by
  rcases hg.instruct_cases with hi | ⟨m, mnemonic, i, next, rfl⟩
  · rw [h.widths_of_isInstruct hi]
  · cases h.singleton with
    | instruct h' => exact h'.lookup_widths (hk mnemonic (by simp [mnemonics]))

end Action

/-! ### Statements and lines -/

section Statement

variable {l : Line} {st : Statement}

theorem Line.mnemonics_subset (hl : l.statement? = some st) :
    ∀ mnemonic ∈ st.actions.flatMap Action.mnemonics, mnemonic ∈ l.body := by
  intro mnemonic hm
  obtain ⟨a, ha, hm⟩ := List.mem_flatMap.1 hm
  cases a with
  | instruct m mnemonic' i next =>
    rw [Action.mnemonics, List.mem_singleton] at hm
    subst hm
    exact (Line.instruct_mem hl ha).2.2.1
  | _ => cases hm

/-- A statement takes both passes to the same place. -/
private theorem Statement.Does.lockstep (hl : l.statement? = some st) (h₁ : st.Does s₁ t₁) (h₂ : st.Does s₂ t₂)
    (hs : s₁.Lockstep s₂) (hk : t₁.symbols.KeptIn s₂.symbols) (hp₁ : s₁.pass = .first) (hp₂ : s₂.pass = .second)
    (hw : t₁.WidthsFrom s₂ l.body) : t₁.Lockstep t₂ := by
  have hg := Line.group_of_statement? hl
  obtain ⟨u₁, hl₁, ha₁, -⟩ := h₁.of_first hp₁
  obtain ⟨hpass, hpc, hdp, he, -, -⟩ := hl₁.same
  have hu : u₁.Lockstep s₂ := ⟨hs.pc.trans hpc.symm, hs.dp.trans hdp.symm, hs.ended.trans he.symm⟩
  obtain ⟨-, r₂, rfl, ⟨hc, rfl⟩ | ⟨hc, ha₂⟩⟩ := h₂.of_second hp₂
  -- The second pass skips constants, and the first one did not move while it defined them.
  · obtain ⟨hpc', hdp', he'⟩ := ha₁.stays (hg.defined_of_constants hc)
    exact ⟨hu.pc.trans hpc'.symm, hu.dp.trans hdp'.symm, hu.ended.trans he'.symm⟩
  · have hk' : u₁.symbols.KeptIn s₂.symbols := ha₁.symbols_of_defined? (hg.defined?_eq_none hc) ▸ hk
    have hr : t₁.Lockstep r₂ := ha₁.lockstep ha₂ (hc ▸ hg) hu hk' (hpass.trans hp₁) hp₂
      fun m hm => hw m (Line.mnemonics_subset hl m hm)
    exact ⟨hr.pc, hr.dp, hr.ended⟩

/-- The second pass finds all widths that it needs. -/
private theorem Statement.Does.widths_again (hl : l.statement? = some st) (h₁ : st.Does s₁ t₁) (h₂ : st.Does s₂ t₂)
    (hp₁ : s₁.pass = .first) (hp₂ : s₂.pass = .second) (hw : t₁.WidthsFrom s₂ l.body) : t₂.widths = s₂.widths := by
  have hg := Line.group_of_statement? hl
  obtain ⟨u₁, hl₁, ha₁, -⟩ := h₁.of_first hp₁
  obtain ⟨-, r₂, rfl, ⟨-, rfl⟩ | ⟨hc, ha₂⟩⟩ := h₂.of_second hp₂
  · rfl
  · show r₂.widths = s₂.widths
    exact ha₁.widths_again ha₂ (hc ▸ hg) (hl₁.same.1.trans hp₁) hp₂
      fun m hm => hw m (Line.mnemonics_subset hl m hm)

/-- A statement records widths for tokens of its line only. -/
theorem Line.lookup_widths_of_run (h : l.run s₁ = .ok () t₁) {key : Int}
    (hk : ∀ mnemonic ∈ l.body, key ≠ mnemonic.index) : t₁.widths.lookup key = s₁.widths.lookup key := by
  rcases Line.run_eq_ok.1 h with ⟨-, rfl⟩ | ⟨st, hl, h⟩
  · rfl
  · have hg := Line.group_of_statement? hl
    have hk' : ∀ mnemonic ∈ st.actions.flatMap Action.mnemonics, key ≠ mnemonic.index :=
      fun m hm => hk m (Line.mnemonics_subset hl m hm)
    cases h with
    | first _ hl ha => rw [ha.lookup_widths hg hk', hl.same.2.2.2.2.1]
    | second _ _ hl ha => exact (ha.lookup_widths hg hk').trans (by rw [hl.same.2.2.2.2.1])
    | skipped _ _ hl => exact congrArg _ hl.same.2.2.2.2.1

end Statement

/-! ### What the first pass leaves -/

/-- No constant that the line defines has the name of a label by then. -/
def Visit.Unshadowed (v : Visit) : Prop :=
  ∀ name ∈ v.line.definitions, v.after.symbols.labels.value? name = none

instance (v : Visit) : Decidable v.Unshadowed :=
  inferInstanceAs (Decidable (∀ name ∈ v.line.definitions, v.after.symbols.labels.value? name = none))

/-- A visit of a first pass that ends in the state `t` with the labels and the widths of that visit. -/
structure Visit.Settled (t : State) (v : Visit) : Prop where
  pass : v.before.pass = .first
  run : v.line.run v.before = .ok () v.after
  widths : v.after.WidthsFrom t v.line.body
  labels : ∀ name address, v.after.symbols.labels.value? name = some address →
    t.symbols.labels.value? name = some address

namespace Walked

variable {s t : State} {ls : List Line} {vs : List Visit}

theorem run_of_mem (h : Walked s ls vs t) {v : Visit} (hv : v ∈ vs) :
    v.before.ended = false ∧ v.line.run v.before = .ok () v.after :=
  run_of_mem_visits (h.visits_eq.symm ▸ hv)

theorem lookup_widths (h : Walked s ls vs t) {key : Int}
    (hk : ∀ l ∈ ls, ∀ mnemonic ∈ l.body, key ≠ mnemonic.index) : t.widths.lookup key = s.widths.lookup key := by
  induction h with
  | nil => rfl
  | ended => rfl
  | cons _ h _ ih =>
    rw [ih fun l hl => hk l (List.mem_cons_of_mem _ hl),
      Line.lookup_widths_of_run h (hk _ (List.mem_cons_self ..))]

/-- Lines have no token in common, so a width that a line records is not touched by the lines after it. -/
private theorem widthsFrom (h : Walked s ls vs t) (hapart : ls.Pairwise Line.Before) :
    ∀ v ∈ vs, v.after.WidthsFrom t v.line.body := by
  induction h with
  | nil => simp
  | ended => simp
  | cons _ h hw ih =>
    obtain ⟨hfirst, hrest⟩ := List.pairwise_cons.1 hapart
    intro v hv
    rcases List.mem_cons.1 hv with rfl | hv
    -- The lines that follow have tokens of their own, so they leave the widths of this one alone.
    · intro mnemonic hm
      refine hw.lookup_widths fun l hl mnemonic' hm' => ?_
      have := hfirst l hl mnemonic hm mnemonic' hm'
      omega
    · exact ih hrest v hv

private theorem settled (h : Walked s ls vs t) (hp : s.pass = .first) (hapart : ls.Pairwise Line.Before) :
    ∀ v ∈ vs, v.Settled t := by
  intro v hv
  refine ⟨(h.pass_of_mem hv).trans hp, (h.run_of_mem hv).2, h.widthsFrom hapart v hv, ?_⟩
  refine ((h.across (R := fun s t => ∀ name address, s.symbols.labels.value? name = some address →
    t.symbols.labels.value? name = some address) (fun _ _ _ h => h)
    (fun _ _ _ h h' name address hv => h' name address (h name address hv)) ?_).2 v hv).2
  intro v _ hr name address hn
  rcases Line.run_eq_ok.1 hr with ⟨-, he⟩ | ⟨st, -, hd⟩
  · rwa [he]
  · exact hd.labels_value? hn

/-- Unless constants take the names of labels, all symbols keep their values to the end. -/
theorem keptIn (h : Walked s ls vs t) (hp : s.pass = .first) (hapart : ls.Pairwise Line.Before)
    (hn : ∀ v ∈ vs, v.Unshadowed) : ∀ v ∈ vs, v.after.symbols.KeptIn t.symbols := by
  intro v hv
  refine ((h.across (R := fun s t => s.symbols.KeptIn t.symbols) (fun _ => .refl _) (fun _ _ _ => .trans) ?_).2
    v hv).2
  intro v hv hr
  rcases Line.run_eq_ok.1 hr with ⟨-, he⟩ | ⟨st, hl, hd⟩
  · rw [he]
    exact .refl _
  · refine hd.keptIn (h.settled hp hapart v hv).pass fun a ha name hdef => ?_
    exact hn v hv name ((Line.mem_definitions hl).2 ⟨a, ha, hdef⟩)

end Walked

/-! ### The second pass -/

/-- A state of the second pass that goes with a state of a first pass that ends in the state `t`. -/
structure State.Retraces (t s₁ s₂ : State) : Prop where
  pass : s₂.pass = .second
  symbols : s₂.symbols = t.symbols
  widths : s₂.widths = t.widths
  ended : s₂.ended = s₁.ended

namespace Visit.Settled

variable {t : State} {v : Visit}

private theorem retraces (hv : v.Settled t) (h : State.Retraces t v.before s₂) (hr : v.line.run s₂ = .ok () t₂) :
    State.Retraces t v.after t₂ := by
  have hended : t₂.ended = v.after.ended := by
    rw [Line.ended_of_run hr, Line.ended_of_run hv.run, h.ended]
  have hpass := (Line.pass_of_run hr).trans h.pass
  rcases hl : v.line.statement? with _ | st
  · cases Line.eq_of_run hl hr
    exact ⟨hpass, h.symbols, h.widths, hended⟩
  · have h₁ := Line.does_of_run hl hv.run
    have h₂ := Line.does_of_run hl hr
    have hw : v.after.WidthsFrom s₂ v.line.body := fun m hm => h.widths ▸ hv.widths m hm
    exact ⟨hpass, (h₂.symbols_of_second h.pass (Line.group_of_statement? hl)).trans h.symbols,
      (h₁.widths_again hl h₂ hv.pass h.pass hw).trans h.widths, hended⟩

private theorem lockstep (hv : v.Settled t) (hk : v.after.symbols.KeptIn t.symbols) (h : State.Retraces t v.before s₂)
    (hs : v.before.Lockstep s₂) (hr : v.line.run s₂ = .ok () t₂) : v.after.Lockstep t₂ := by
  rcases hl : v.line.statement? with _ | st
  · cases Line.eq_of_run hl hr
    rwa [Line.eq_of_run hl hv.run]
  · have hw : v.after.WidthsFrom s₂ v.line.body := fun m hm => h.widths ▸ hv.widths m hm
    exact (Line.does_of_run hl hv.run).lockstep hl (Line.does_of_run hl hr) hs (h.symbols ▸ hk) hv.pass h.pass hw

/-- A label is where the first pass put it. -/
private theorem labels_found (hv : v.Settled t) (h : State.Retraces t v.before s₂) (hs : v.before.Lockstep s₂)
    {st : Statement} (hl : v.line.statement? = some st) : s₂.Labels st.label s₂ := by
  rcases hlabel : st.label with _ | ⟨name, place⟩
  · exact .absent
  · refine .found h.pass ?_
    rw [h.symbols, hs.pc]
    exact hv.labels name _ ((Line.does_of_run hl hv.run).label_of_first hv.pass hlabel)

private theorem inPhase (hv : v.Settled t) (h : State.Retraces t v.before s₂) (hs : v.before.Lockstep s₂) {e : Failure}
    (hr : v.line.run s₂ = .error e t₂) : e.isPhaseError = false := by
  rcases hl : v.line.statement? with _ | st
  · rw [Line.run, hl] at hr
    cases hr
  · rw [Line.run, hl] at hr
    obtain ⟨-, -, -, hfault⟩ := (Line.does_of_run hl hv.run).of_first hv.pass
    exact Statement.inPhase_of_labels (hv.labels_found h hs hl) hfault hr

end Visit.Settled

namespace Walked

variable {s t : State} {ls : List Line} {vs : List Visit}

/-- The second pass starts on lines of the first one only, with the symbols and the widths of its end. -/
theorem retraces_attempts (h : Walked s ls vs t) (hp : s.pass = .first) (he : s.ended = false)
    (hapart : ls.Pairwise Line.Before) {k : Nat} {a : Attempt} (ha : (attempts t.turn ls)[k]? = some a) :
    ∃ v₁ : Visit, vs[k]? = some v₁ ∧ a.line = v₁.line ∧ v₁.Settled t ∧ State.Retraces t v₁.before a.state := by
  have hset := h.settled hp hapart
  have hturn : State.Retraces t s t.turn := ⟨rfl, rfl, rfl, he.symm⟩
  obtain ⟨v₁, hv₁, hl, hR⟩ := h.simulate_attempts (R := State.Retraces t) hturn (fun _ _ => State.Retraces.ended)
    (fun v hv _ _ hR hr => (hset v hv).retraces hR hr) ha
  exact ⟨v₁, hv₁, hl, hset v₁ (List.mem_of_getElem? hv₁), hR⟩

/-- The second pass gets over lines of the first one only, with the symbols and the widths of its end. -/
theorem retraces (h : Walked s ls vs t) (hp : s.pass = .first) (he : s.ended = false)
    (hapart : ls.Pairwise Line.Before) {k : Nat} {v₂ : Visit} (hv₂ : (visits t.turn ls)[k]? = some v₂) :
    ∃ v₁ : Visit, vs[k]? = some v₁ ∧ v₂.line = v₁.line ∧ v₁.Settled t ∧ State.Retraces t v₁.before v₂.before ∧
      State.Retraces t v₁.after v₂.after := by
  obtain ⟨v₁, hv₁, hl, hv, hR⟩ := h.retraces_attempts hp he hapart (attempts_of_visits hv₂)
  replace hl : v₂.line = v₁.line := hl
  have hrun := (run_of_mem_visits (List.mem_of_getElem? hv₂)).2
  rw [hl] at hrun
  exact ⟨v₁, hv₁, hl, hv, hR, hv.retraces hR hrun⟩

/-- A second pass that comes to its end leaves the symbols and the widths of the first one. -/
theorem keeps (h : Walked s ls vs t) (hp : s.pass = .first) (he : s.ended = false)
    (hapart : ls.Pairwise Line.Before) {vs₂ : List Visit} {u : State} (h₂ : Walked t.turn ls vs₂ u) :
    u.symbols = t.symbols ∧ u.widths = t.widths := by
  refine (h₂.across (R := fun s t => t.symbols = s.symbols ∧ t.widths = s.widths) (fun _ => ⟨rfl, rfl⟩)
    (fun _ _ _ h h' => ⟨h'.1.trans h.1, h'.2.trans h.2⟩) ?_).1
  intro v hv _
  obtain ⟨k, hk⟩ := List.getElem?_of_mem hv
  obtain ⟨v₁, -, -, -, hR, hR'⟩ := h.retraces hp he hapart (k := k) (h₂.visits_eq ▸ hk)
  exact ⟨hR'.symbols.trans hR.symbols.symm, hR'.widths.trans hR.widths.symm⟩

/-- If no constant takes the name of a label, the second pass is where the first one was, before and after each of
its lines, and it never meets a label that is out of phase. -/
theorem lockstep (h : Walked s ls vs t) (hp : s.pass = .first) (hs : s.Lockstep t.turn)
    (hapart : ls.Pairwise Line.Before) (hn : ∀ v ∈ vs, v.Unshadowed) :
    (∀ (k : Nat) (v₂ : Visit), (visits t.turn ls)[k]? = some v₂ →
        ∃ v₁ : Visit, vs[k]? = some v₁ ∧ v₂.line = v₁.line ∧ v₁.before.Lockstep v₂.before ∧
          v₁.after.Lockstep v₂.after) ∧
      ∀ u e, walk t.turn ls = (u, some e) → e.isPhaseError = false := by
  have hset := h.settled hp hapart
  have hkept := h.keptIn hp hapart hn
  have hturn : State.Retraces t s t.turn := ⟨rfl, rfl, rfl, hs.ended⟩
  obtain ⟨hvisit, hfail⟩ := h.simulate (R := fun s₁ s₂ => State.Retraces t s₁ s₂ ∧ s₁.Lockstep s₂)
    ⟨hturn, hs⟩ (fun _ _ hR => hR.2.ended)
    fun v hv _ _ hR hr => ⟨(hset v hv).retraces hR.1 hr, (hset v hv).lockstep (hkept v hv) hR.1 hR.2 hr⟩
  constructor
  · intro k v₂ hv₂
    obtain ⟨v₁, hv₁, hl, hR, hlock⟩ := hvisit k v₂ hv₂
    have hmem := List.mem_of_getElem? hv₁
    have hrun := (run_of_mem_visits (List.mem_of_getElem? hv₂)).2
    rw [hl] at hrun
    exact ⟨v₁, hv₁, hl, hlock, (hset v₁ hmem).lockstep (hkept v₁ hmem) hR hlock hrun⟩
  · intro u e hw
    obtain ⟨v, hv, r, r', ⟨hR, hlock⟩, hr⟩ := hfail u e hw
    exact (hset v hv).inPhase hR hlock hr

end Walked

/-- If the first pass over a source comes to its end and no constant takes the name of a label on the way, then
after each line that the second pass gets over it is where the first pass was after that line: at the same token,
program counter and direct page, and both or none of them at the end of the source.  No label is out of phase. -/
theorem second_pass_retraces_first {source file : String} {tokens : List Token} {base : Int} {symbols : Symbols}
    {s : State} (ht : tokenize source file = .ok tokens)
    (hw : walk (State.start .first { base, symbols }) (Line.split tokens) = (s, none))
    (hn : ∀ v ∈ visits (State.start .first { base, symbols }) (Line.split tokens), v.Unshadowed) :
    (∀ (k : Nat) (p₂ : Step), (steps s.turn (Line.split tokens))[k]? = some p₂ →
        ∃ p₁ : Step, (steps (State.start .first { base, symbols }) (Line.split tokens))[k]? = some p₁ ∧
          p₂.index = p₁.index ∧ p₂.state.pc = p₁.state.pc ∧ p₂.state.dp = p₁.state.dp ∧
          p₂.state.ended = p₁.state.ended) ∧
      ∀ e, (walk s.turn (Line.split tokens)).2 = some e → e.isPhaseError = false := by
  have hwalked := walk_eq_none_iff.1 hw
  have hstart : (State.start .first { base, symbols }).Lockstep s.turn := ⟨hwalked.base, rfl, rfl⟩
  obtain ⟨hvisit, hfail⟩ := hwalked.lockstep rfl hstart (Line.split_apart (tokenize_index ht)) hn
  constructor
  · intro k p₂ hp₂
    rw [steps_eq_map_visits, List.getElem?_map, Option.map_eq_some_iff] at hp₂
    obtain ⟨v₂, hv₂, rfl⟩ := hp₂
    obtain ⟨v₁, hv₁, hl, -, hlock⟩ := hvisit k v₂ hv₂
    refine ⟨⟨v₁.line.next, v₁.after⟩, ?_, by rw [hl], hlock.pc, hlock.dp, hlock.ended⟩
    rw [steps_eq_map_visits, List.getElem?_map, hv₁]
    rfl
  · intro e he
    exact hfail _ e (Prod.ext rfl he)

/-- A source with references in both directions and operands of several widths. -/
private def thereAndBack : String :=
  "n = 2\np: lda q\n ldb n,x\n org 9\nq: bra p\n"

theorem second_pass_retraces_first_there_and_back :
    ∃ tokens s, tokenize thereAndBack "main.asm" = .ok tokens ∧
      walk (State.start .first { base := 0x10 }) (Line.split tokens) = (s, none) ∧
      (∀ v ∈ visits (State.start .first { base := 0x10 }) (Line.split tokens), v.Unshadowed) ∧
      (steps s.turn (Line.split tokens)).length = 5 ∧
      (∀ (k : Nat) (p₂ : Step), (steps s.turn (Line.split tokens))[k]? = some p₂ →
        ∃ p₁ : Step, (steps (State.start .first { base := 0x10 }) (Line.split tokens))[k]? = some p₁ ∧
          p₂.index = p₁.index ∧ p₂.state.pc = p₁.state.pc ∧ p₂.state.dp = p₁.state.dp ∧
          p₂.state.ended = p₁.state.ended) ∧
      ∀ e, (walk s.turn (Line.split tokens)).2 = some e → e.isPhaseError = false := by
  let tokens := (tokenize thereAndBack "main.asm").toOption.getD []
  let first := walk (State.start .first { base := 0x10 }) (Line.split tokens)
  have ht : tokenize thereAndBack "main.asm" = .ok tokens := tokenize_eq_ok (by decide +kernel)
  have hrun : first.2 = none ∧
      (∀ v ∈ visits (State.start .first { base := 0x10 }) (Line.split tokens), v.Unshadowed) ∧
      (steps first.1.turn (Line.split tokens)).length = 5 := by decide +kernel
  obtain ⟨hnone, hn, hlength⟩ := hrun
  have hw : first = (first.1, none) := Prod.ext rfl hnone
  exact ⟨tokens, first.1, ht, hw, hn, hlength, second_pass_retraces_first ht hw hn⟩

end Mc6809
