import Mc6809.Proofs.Assembly.Frame

/-!
# What the second pass emits and records

An action of the second pass appends bytes to the output and, unless it sets the origin, moves the program counter
over them (`Action.Does.appends`).  A statement records a row with its address and the bytes that it appended
(`Statement.Does.row`).
-/

namespace Mc6809

variable {s t : State} {a : Action} {as : List Action}

theorem State.output_emit (hp : s.pass = .second) (bytes : List UInt8) :
    (s.emit bytes).output.toList = s.output.toList ++ bytes := by
  simp [emit, hp]

namespace Action

/-- Unless it sets the origin, an action of the second pass moves the program counter over the bytes that it
appends. -/
theorem Does.appends (h : a.Does s t) (hp : s.pass = .second) :
    ∃ bytes, t.output.toList = s.output.toList ++ bytes ∧ (a.isOrigin = false → t.pc = s.pc + bytes.length) := by
  have hnone : t.output = s.output → t.pc = s.pc → ∃ bytes, t.output.toList = s.output.toList ++ bytes ∧
      (a.isOrigin = false → t.pc = s.pc + bytes.length) := by
    intro ho hpc
    exact ⟨[], by simp [ho], fun _ => by simp [hpc]⟩
  cases h with
  | define => exact hnone rfl rfl
  | origin => exact ⟨[], by simp [State.note], fun h => by cases h⟩
  | page => exact hnone rfl rfl
  | check => exact hnone rfl rfl
  | terminator => exact hnone rfl rfl
  | stop => exact hnone rfl rfl
  | reserve => exact ⟨_, s.output_emit hp _, fun _ => rfl⟩
  | reserveOne => exact ⟨_, s.output_emit hp _, fun _ => rfl⟩
  | reserveMany => exact ⟨_, s.output_emit hp _, fun _ => rfl⟩
  | fill => exact ⟨_, s.output_emit hp _, fun _ => rfl⟩
  | text => exact ⟨_, s.output_emit hp _, fun _ => rfl⟩
  | value => exact ⟨_, s.output_emit hp _, fun _ => rfl⟩
  | instruct => exact ⟨_, State.output_emit (s := { s with widths := _ }) hp _, fun _ => rfl⟩

private theorem DoAll.appends (h : DoAll s as t) (hp : s.pass = .second) :
    ∃ bytes, t.output.toList = s.output.toList ++ bytes ∧
      ((∀ a ∈ as, a.isOrigin = false) → t.pc = s.pc + bytes.length) := by
  induction h with
  | nil s => exact ⟨[], by simp, fun _ => by simp⟩
  | cons h _ ih =>
    obtain ⟨front, hfront, hpc⟩ := h.appends hp
    obtain ⟨back, hback, hpc'⟩ := ih (h.frame.pass.trans hp)
    refine ⟨front ++ back, by rw [hback, hfront, List.append_assoc], fun ho => ?_⟩
    rw [hpc' fun b hb => ho b (List.mem_cons_of_mem _ hb), hpc (ho _ (List.mem_cons_self ..)), List.length_append]
    omega

end Action

/-- The row of a statement has the bytes that it appended. -/
private theorem State.listing_record {bytes : List UInt8} (h : t.output.toList = s.output.toList ++ bytes)
    (line : Nat) :
    (s.record line t).listing.toList = t.listing.toList ++ [⟨s.pc, bytes, line⟩] := by
  have hsize : t.output.size = s.output.size + bytes.length := by
    simpa using congrArg List.length h
  have hdata : (t.output.extract s.output.size t.output.size).toList = bytes := by
    rw [Array.toList_extract, List.extract_eq_take_drop, h, hsize]
    simp
  rw [record, Array.toList_push, hdata]

/-- The address after a statement at an address that left bytes: that of an origin, or the one after the bytes. -/
def Statement.addressAfter (st : Statement) (symbols : Symbols) (address : Int) (data : List UInt8) : Int :=
  match st.origin? with
  | some e => (e.value symbols 0).total
  | none => address + data.length

/-- A statement of the second pass records its address and the bytes that it appends. -/
theorem Statement.Does.row {st : Statement} (h : st.Does s t) (hp : s.pass = .second)
    (hg : Action.Group st.constants st.actions) :
    ∃ data, t.output.toList = s.output.toList ++ data ∧
      t.listing.toList = s.listing.toList ++ [⟨s.pc, data, st.first.line⟩] ∧
      t.pc = st.addressAfter s.symbols s.pc data := by
  obtain ⟨-, u, rfl, ⟨hc, rfl⟩ | ⟨hc, ha⟩⟩ := h.of_second hp
  -- A statement that is skipped defines constants, so it is no origin.
  · have hnone : st.origin? = none := by
      rcases ho : st.origin? with _ | e
      · rfl
      · have hd := hg.defined_of_constants hc
        rw [actions_of_origin? ho] at hd
        have := hd _ (List.mem_singleton_self _)
        cases this
    exact ⟨[], by simp [State.record], State.listing_record (by simp) _,
      by simp [addressAfter, hnone, State.record]⟩
  · obtain ⟨bytes, hout, hpc⟩ := ha.appends hp
    refine ⟨bytes, hout, ?_, ?_⟩
    · rw [State.listing_record hout, ha.frame.listing]
    · show u.pc = _
      unfold addressAfter
      rcases ho : st.origin? with _ | e
      · exact hpc (isOrigin_eq_false hg ho)
      · rw [actions_of_origin? ho] at ha
        cases ha.singleton with
        | @origin _ n hb =>
          have hv : e.value s.symbols 0 = s.value e := Expr.value_of_keptIn (.refl _) (hb.admits (.inl rfl)) 0
          show n = (e.value s.symbols 0).total
          rw [hv]
          exact hb.total

end Mc6809
