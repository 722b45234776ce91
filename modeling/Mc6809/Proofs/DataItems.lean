import Mc6809.Assembly.Part
import Mc6809.Proofs.Machine.Decoder
import Mc6809.Proofs.OperandShapes
import Mc6809.Proofs.Translation.Reading

/-!
# The bytes of data directives

A data directive has items with commas between them, texts and sums (`DataItem.Separated`).  All of them are emitted,
one after the other, but for a zero behind a text at the end of a directive that takes it for the terminator of the text
(`Directive.emitted`).  An item is either refused or emits its bytes (`DataItem.does_iff`), and the items follow each
other without looking at what the ones before them left (`DataItem.doAll_iff`).  The bytes are those of the numbers that
the items stand for (`DataItem.exists_numbers`); how many there are does not depend on the symbols.
-/

namespace Mc6809

open Assemble

/-! ### Items -/

/-- An item of a data directive with its tokens: a text, or a sum of signed terms. -/
inductive DataItem where
  | text (s : String) (t : Token)
  | sum (e : Expr) (ts : List Token)

namespace DataItem

def tokens : DataItem → List Token
  | text _ t => [t]
  | sum _ ts => ts

/-- The tokens of an item are those of a text, or spell a sum. -/
def Written : DataItem → Prop
  | text s t => t.lexeme = .text s
  | sum e ts => e.Spelled ts

/-- Items with commas between them. -/
inductive Separated : List DataItem → List Token → Prop
  | one {i : DataItem} (hi : i.Written) : Separated [i] i.tokens
  | more {i : DataItem} {is : List DataItem} {comma : Token} {ts : List Token} (hi : i.Written)
      (hc : comma.lexeme = .comma) (h : Separated is ts) : Separated (i :: is) (i.tokens ++ comma :: ts)

def isText : DataItem → Bool
  | text _ _ => true
  | sum _ _ => false

/-- A zero that is written as a single number. -/
def isZero : DataItem → Bool
  | text _ _ => false
  | sum _ ts => ts.map Token.lexeme = [.integer 0]

/-- The items that are emitted, if a zero behind a text at the end is not. -/
def withoutTerminator : List DataItem → List DataItem
  | [i, j] => if i.isText && j.isZero then [i] else [i, j]
  | i :: is => i :: withoutTerminator is
  | [] => []

/-- How many numbers items stand for: each character of a text is one. -/
def count : List DataItem → Nat
  | [] => 0
  | text s _ :: is => s.toList.length + count is
  | sum _ _ :: is => 1 + count is

/-- All symbols of an item have values. -/
def Known (symbols : Symbols) : DataItem → Prop
  | text _ _ => True
  | sum e _ => ∀ x ∈ e.terms, x.Known symbols

/-- The numbers that items stand for, in which `p` stands for what has no value. -/
inductive Numbers (symbols : Symbols) (p : Int) : List DataItem → List Int → Prop
  | nil : Numbers symbols p [] []
  | text {s : String} {t : Token} {is : List DataItem} {ns : List Int} (h : Numbers symbols p is ns) :
      Numbers symbols p (text s t :: is) (s.toList.map (fun c => (c.toNat : Int)) ++ ns)
  | sum {e : Expr} {ts : List Token} {n : Int} {is : List DataItem} {ns : List Int}
      (hn : Term.AddUp symbols p e.terms n) (h : Numbers symbols p is ns) : Numbers symbols p (sum e ts :: is) (n :: ns)

end DataItem

namespace Cell

/-- The numbers that fit into a unit, with a sign or without one. -/
def Holds : Cell → Int → Prop
  | byte, n => -128 ≤ n ∧ n ≤ 255
  | word, n => -32768 ≤ n ∧ n ≤ 65535

/-- The number of bytes of a unit. -/
def size : Cell → Nat
  | byte => 1
  | word => 2

/-- Numbers and their bytes: the low byte of each, or the low word with the high byte first. -/
inductive Stores : Cell → List Int → List UInt8 → Prop
  | nil (cell : Cell) : Stores cell [] []
  | byte {n : Int} {ns : List Int} {b : UInt8} {bs : List UInt8} (hb : (b.toNat : Int) = n % 256)
      (h : Stores .byte ns bs) : Stores .byte (n :: ns) (b :: bs)
  | word {n : Int} {ns : List Int} {hi lo : UInt8} {bs : List UInt8}
      (hw : (256 * hi.toNat + lo.toNat : Int) = n % 65536) (h : Stores .word ns bs) :
      Stores .word (n :: ns) (hi :: lo :: bs)

private theorem contains_bounds {cell : Cell} {n : Int} : cell.bounds.contains n = true ↔ cell.Holds n := by
  cases cell <;> exact Bounds.contains_iff

variable {cell : Cell} {ns : List Int} {bs : List UInt8}

private theorem stores_append (h : cell.Stores ns bs) (ms : List Int) :
    cell.Stores (ms ++ ns) (ms.flatMap cell.bytes ++ bs) := by
  induction ms with
  | nil => exact h
  | cons m ms ih =>
    cases cell with
    | byte => exact .byte (Machine.toNat_lowByte m) ih
    | word =>
      refine .word ?_ ih
      rw [Machine.toNat_lowByte, Machine.toNat_lowByte]
      omega

private theorem Stores.length_eq (h : cell.Stores ns bs) : bs.length = cell.size * ns.length := by
  induction h with
  | nil => rfl
  | byte _ _ ih =>
    rw [List.length_cons, List.length_cons, ih]
    rfl
  | word _ _ ih =>
    rw [List.length_cons, List.length_cons, List.length_cons, ih]
    rfl

end Cell

/-- A text has characters that are bytes, and a sum of known terms fits into the unit. -/
def DataItem.Fits (cell : Cell) (symbols : Symbols) (p : Int) : DataItem → Prop
  | text s _ => ∀ c ∈ s.toList, c.toNat ≤ 0xFF
  | sum e _ => (∀ x ∈ e.terms, x.Known symbols) → ∀ n, Term.AddUp symbols p e.terms n → cell.Holds n

namespace Directive

/-- The unit of a data directive. -/
def cell? : Directive → Option Cell
  | db | fcb | byteList | fcc => some .byte
  | dw | fdb | wordList => some .word
  | _ => none

/-- The directives that take a zero behind a text for its terminator. -/
def dropsZero : Directive → Bool
  | db | fcb | byteList => true
  | _ => false

/-- The items of a data directive that are emitted. -/
def emitted (d : Directive) (items : List DataItem) : List DataItem :=
  if d.dropsZero then DataItem.withoutTerminator items else items

private theorem definesConstants_of_cell? {d : Directive} {cell : Cell} (h : d.cell? = some cell) :
    d.definesConstants = false := by
  cases d <;> cases h <;> rfl

private theorem readDirective_of_cell? {d : Directive} {cell : Cell} (h : d.cell? = some cell) (place stop : Token)
    (ts : List Token) :
    Script.readDirective d place stop ts = Script.readItems cell d.dropsZero d place stop false ts := by
  cases d <;> cases h <;> rfl

end Directive

/-! ### Reading -/

namespace DataItem

variable {cell : Cell} {drops : Bool} {d : Directive} {place stop : Token} {i : DataItem} {is items : List DataItem}
  {ts rest : List Token} {s t : State}

/-- The action of an item that is emitted. -/
def action (cell : Cell) : DataItem → Action
  | text s t => .text cell s t
  | sum e _ => .value cell e

/-- The actions of items, of which the first one may be behind a text. -/
def actions (cell : Cell) (drops : Bool) (d : Directive) (place : Token) : Bool → List DataItem → List Action
  | afterText, [i] => [if drops && afterText && i.isZero then .terminator d place else i.action cell]
  | _, i :: is => i.action cell :: actions cell drops d place i.isText is
  | _, [] => []

private theorem isText_action (cell : Cell) (i : DataItem) : (i.action cell).isText = i.isText := by
  cases i <;> rfl

private theorem Separated.ne_nil (h : Separated items ts) : items ≠ [] := by
  cases h <;> simp

private theorem actions_cons (h : is ≠ []) (afterText : Bool) :
    actions cell drops d place afterText (i :: is) = i.action cell :: actions cell drops d place i.isText is := by
  cases is with
  | nil => exact absurd rfl h
  | cons j js => rfl

/-- An item is read up to the comma or the end of the line behind it. -/
private theorem readItem_of_written (hi : i.Written) (hrest : ∀ c ∈ rest.head?, c.lexeme = .comma) :
    Script.readItem cell drops d place stop (i.tokens ++ rest) =
      .ok (if drops && i.isZero && rest.isEmpty then .terminator d place else i.action cell, rest) := by
  cases i with
  | text u t =>
    have ht : t.lexeme = .text u := hi
    simp [tokens, Script.readItem, ht, isZero, action]
  | sum e us =>
    have hspelled : e.Spelled us := hi
    obtain ⟨t, us, rfl, hstart⟩ := hspelled.sum.exists_cons
    have hsign : Expr.NoSign rest := by
      intro c hc k hk
      rw [hrest c hc] at hk
      cases hk
    have hread : Expr.read stop (t :: (us ++ rest)) = .ok (e, rest) :=
      Expr.read_eq_ok_iff.2 ⟨t :: us, rfl, hspelled, hsign⟩
    have hzero : (decide (t.lexeme = .integer 0) && (us ++ rest).isEmpty) =
        (isZero (.sum e (t :: us)) && rest.isEmpty) := by
      cases us <;> cases rest <;> simp [isZero]
    simp only [tokens, List.cons_append, Script.readItem]
    split
    · next u ht =>
      rw [ht] at hstart
      cases hstart
    · rw [Bool.and_assoc, hzero, ← Bool.and_assoc, hread]
      split
      · next hdrop =>
        have hempty : (us ++ rest).isEmpty = true := by
          rw [Bool.and_assoc, ← hzero] at hdrop
          simp only [Bool.and_eq_true] at hdrop
          exact hdrop.2.2
        obtain ⟨rfl, rfl⟩ := List.append_eq_nil_iff.1 (List.isEmpty_iff.1 hempty)
        rfl
      · rfl

/-- Items are read to the end of the line. -/
private theorem readItems_of_separated (h : Separated items ts) (afterText : Bool) :
    Script.readItems cell drops d place stop afterText ts =
      ⟨actions cell drops d place afterText items, .ok []⟩ := by
  induction h generalizing afterText with
  | @one i hi =>
    have hread : Script.readItem cell (drops && afterText) d place stop i.tokens = _ :=
      List.append_nil i.tokens ▸ readItem_of_written hi (by simp)
    rw [Script.readItems_eq, hread]
    simp [actions, afterLexeme?]
  | @more i is comma ts hi hc h ih =>
    have hread : Script.readItem cell (drops && afterText) d place stop (i.tokens ++ comma :: ts) = _ :=
      readItem_of_written hi (by simpa using hc)
    rw [Script.readItems_eq, hread]
    simp only [List.isEmpty_cons, Bool.and_false, Bool.false_eq_true, ↓reduceIte, afterLexeme?, hc]
    rw [isText_action, ih, actions_cons h.ne_nil]
    rfl

private theorem actions_of_not_drops (afterText : Bool) (items : List DataItem) :
    actions cell false d place afterText items = items.map (action cell) := by
  induction items generalizing afterText with
  | nil => rfl
  | cons i is ih =>
    cases is with
    | nil => rfl
    | cons j js => rw [actions_cons (List.cons_ne_nil j js), ih, List.map_cons, List.map_cons, List.map_cons]

/-- A zero behind the last text is no item to emit but a terminator. -/
private theorem actions_of_drops {afterText : Bool} (h : afterText = false ∨ 1 < items.length) :
    actions cell true d place afterText items =
      (withoutTerminator items).map (action cell) ++
        List.replicate (items.length - (withoutTerminator items).length) (.terminator d place) := by
  fun_induction withoutTerminator items generalizing afterText with
  | case1 i j hdrop => simp [actions, hdrop]
  | case2 i j hkeep => simp [actions, hkeep]
  | case3 i is hpair ih =>
    cases is with
    | nil =>
      have hfirst : afterText = false := by simpa using h
      simp [actions, hfirst, withoutTerminator]
    | cons j js =>
      have hlong : 1 < (j :: js).length := by
        cases js with
        | nil => exact absurd rfl (hpair j)
        | cons k ks => simp
      have hlength : (i :: j :: js).length - (i :: withoutTerminator (j :: js)).length =
          (j :: js).length - (withoutTerminator (j :: js)).length := Nat.add_sub_add_right _ 1 _
      rw [actions_cons (List.cons_ne_nil j js), ih (.inr hlong), List.map_cons, List.cons_append, hlength]
  | case4 => rfl

private theorem actions_eq (items : List DataItem) :
    actions cell d.dropsZero d place false items =
      (d.emitted items).map (action cell) ++
        List.replicate (items.length - (d.emitted items).length) (.terminator d place) := by
  unfold Directive.emitted
  cases d.dropsZero with
  | false => simp [actions_of_not_drops]
  | true => exact actions_of_drops (.inl rfl)

/-! ### Emitting -/

/-- The bytes of an item in a state. -/
def data (cell : Cell) (s : State) : DataItem → List UInt8
  | text u _ => u.toList.flatMap fun c => cell.bytes c.toNat
  | sum e _ => cell.bytes (s.value e).total

/-- An item that a state takes: the second pass has to know all its symbols. -/
def Accepted (cell : Cell) (s : State) (i : DataItem) : Prop :=
  i.Fits cell s.symbols s.placeholder ∧ (s.pass = .second → i.Known s.symbols)

/-- An item is emitted exactly if it is accepted. -/
theorem does_iff : (i.action cell).Does s t ↔ i.Accepted cell s ∧ t = s.emit (i.data cell s) := by
  cases i with
  | text u place =>
    constructor
    · intro h
      cases h with
      | text h => exact ⟨⟨h, fun _ => trivial⟩, rfl⟩
    · rintro ⟨⟨h, -⟩, rfl⟩
      exact .text h
  | sum e us =>
    have hsettled := Expr.settled_iff_known e s.symbols s.placeholder
    constructor
    · intro h
      cases h with
      | value h =>
        obtain ⟨rfl, hadmits, hcontains⟩ := h
        refine ⟨⟨fun hknown n hn => ?_, fun hp => hsettled.1 (hadmits (.inr hp))⟩, rfl⟩
        rw [Term.addUp_iff.1 hn]
        exact Cell.contains_bounds.1 (hcontains (hsettled.2 hknown))
    · rintro ⟨⟨hfits, hknown⟩, rfl⟩
      refine .value ⟨rfl, fun h => ?_, fun h => ?_⟩
      · rcases h with h | h
        · cases h
        · exact hsettled.2 (hknown h)
      · exact Cell.contains_bounds.2 (hfits (hsettled.1 h) _ (Term.addUp_iff.2 rfl))

/-- Items are emitted one after the other. -/
theorem doAll_iff :
    Action.DoAll s (items.map (action cell)) t ↔
      (∀ i ∈ items, i.Accepted cell s) ∧ t = s.emit (items.flatMap (data cell s)) := by
  induction items generalizing s with
  | nil =>
    have hnil : s.emit [] = s := by simp [State.emit]
    rw [List.flatMap_nil, hnil]
    constructor
    · rintro ⟨⟩
      exact ⟨by simp, rfl⟩
    · rintro ⟨-, rfl⟩
      exact .nil _
  | cons i is ih =>
    rw [List.flatMap_cons, ← State.emit_emit, List.forall_mem_cons]
    constructor
    · intro h
      cases h with
      | cons hi his =>
        obtain ⟨haccepted, rfl⟩ := does_iff.1 hi
        obtain ⟨hrest, rfl⟩ := ih.1 his
        exact ⟨⟨haccepted, hrest⟩, rfl⟩
    · rintro ⟨⟨hi, his⟩, rfl⟩
      exact .cons (does_iff.2 ⟨hi, rfl⟩) (ih.2 ⟨his, rfl⟩)

private theorem Numbers.length_eq {symbols : Symbols} {p : Int} {ns : List Int} (h : Numbers symbols p items ns) :
    ns.length = count items := by
  induction h with
  | nil => rfl
  | text _ ih => rw [List.length_append, List.length_map, ih, count]
  | sum _ _ ih => rw [List.length_cons, ih, count, Nat.add_comm]

/-- The bytes of items are those of the numbers that they stand for. -/
theorem exists_numbers (cell : Cell) (s : State) (items : List DataItem) :
    ∃ ns, Numbers s.symbols s.placeholder items ns ∧ cell.Stores ns (items.flatMap (data cell s)) := by
  induction items with
  | nil => exact ⟨[], .nil, .nil cell⟩
  | cons i is ih =>
    obtain ⟨ns, hns, hstores⟩ := ih
    rw [List.flatMap_cons]
    cases i with
    | text u t =>
      have hu := Cell.stores_append hstores (u.toList.map fun c => (c.toNat : Int))
      rw [List.flatMap_map] at hu
      exact ⟨_, .text hns, hu⟩
    | sum e us =>
      have hsum := Cell.stores_append hstores [(s.value e).total]
      rw [List.flatMap_singleton] at hsum
      exact ⟨_, .sum (Term.addUp_iff.2 rfl) hns, hsum⟩

end DataItem

/-! ### Directives -/

variable {s t : State} {d : Directive} {cell : Cell} {place stop : Token} {items : List DataItem} {ts : List Token}

private theorem Action.doAll_append {as bs : List Action} :
    DoAll s (as ++ bs) t ↔ ∃ u, DoAll s as u ∧ DoAll u bs t := by
  induction as generalizing s with
  | nil =>
    constructor
    · intro h
      exact ⟨s, .nil s, h⟩
    · rintro ⟨u, ⟨⟩, h⟩
      exact h
  | cons a as ih =>
    constructor
    · intro h
      cases h with
      | cons ha has =>
        obtain ⟨u, hu, hbs⟩ := ih.1 has
        exact ⟨u, .cons ha hu, hbs⟩
    · rintro ⟨u, h, hbs⟩
      cases h with
      | cons ha has => exact .cons ha (ih.2 ⟨u, has, hbs⟩)

/-- Terminators are noted and nothing else. -/
private theorem Action.doAll_terminators {k : Nat} :
    DoAll s (List.replicate k (.terminator d place)) t ↔
      t = { s with notes := s.notes ++ List.replicate k (.terminator d place.line) } := by
  induction k generalizing s with
  | zero =>
    simp only [List.replicate_zero, List.append_nil]
    constructor
    · rintro ⟨⟩
      rfl
    · rintro rfl
      exact .nil s
  | succ k ih =>
    have hnotes : s.notes ++ List.replicate (k + 1) (.terminator d place.line) =
        (s.note (.terminator d place.line)).notes ++ List.replicate k (.terminator d place.line) := by
      simp [State.note, List.replicate_succ]
    rw [List.replicate_succ, hnotes]
    constructor
    · intro h
      cases h with
      | cons ha has =>
        cases ha
        exact ih.1 has
    · intro h
      exact .cons (.terminator d place) (ih.2 h)

/-- A data directive is carried out exactly if all items that it emits are accepted. -/
private theorem Part.run_data (hd : d.cell? = some cell) (hplace : place.lexeme = .directive d)
    (hitems : DataItem.Separated items ts) {next : Nat} :
    Part.directive.run ⟨place :: ts, stop⟩ s = .ok next t ↔
      next = stop.index ∧ (∀ i ∈ d.emitted items, i.Accepted cell s) ∧
        t = { s.emit ((d.emitted items).flatMap (DataItem.data cell s)) with
          notes := s.notes ++
            List.replicate (items.length - (d.emitted items).length) (.terminator d place.line) } := by
  have hread : Part.directive.read? s.pass ⟨place :: ts, stop⟩ =
      some ⟨DataItem.actions cell d.dropsZero d place false items, .ok []⟩ := by
    simp only [Part.read?, hplace, Directive.definesConstants_of_cell? hd, Bool.false_and, Bool.false_eq_true,
      ↓reduceIte, Directive.readDirective_of_cell? hd, DataItem.readItems_of_separated hitems]
  rw [Part.run, get_bind, hread]
  constructor
  · intro h
    obtain ⟨_, u, hall, hpure⟩ := bind_eq_ok.1 h
    obtain ⟨rfl, rfl⟩ := pure_eq_ok.1 hpure
    rw [DataItem.actions_eq] at hall
    obtain ⟨v, hdata, hnotes⟩ := Action.doAll_append.1 (Action.forM_run_eq_ok.1 hall)
    obtain ⟨haccepted, rfl⟩ := DataItem.doAll_iff.1 hdata
    exact ⟨rfl, haccepted, Action.doAll_terminators.1 hnotes⟩
  · rintro ⟨rfl, haccepted, rfl⟩
    refine bind_eq_ok.2 ⟨(), _, Action.forM_run_eq_ok.2 ?_, rfl⟩
    rw [DataItem.actions_eq]
    exact Action.doAll_append.2 ⟨_, DataItem.doAll_iff.2 ⟨haccepted, rfl⟩, Action.doAll_terminators.2 rfl⟩

/-- A data directive with items up to the end of its line succeeds exactly if the items that it emits fit and, in the
second pass, have no undefined symbols; the first pass does not check a sum with undefined symbols.  The program
counter then moves on by one unit for each number that the items stand for, whatever values the symbols have, and the
second pass appends the bytes of the numbers to the output.  A terminator that is left out is noted. -/
theorem data_directives_emit_their_items (hd : d.cell? = some cell) (hplace : place.lexeme = .directive d)
    (hitems : DataItem.Separated items ts) (stop : Token) (s : State) :
    ((∃ next t, Part.directive.run ⟨place :: ts, stop⟩ s = .ok next t) ↔
      ∀ i ∈ d.emitted items, i.Fits cell s.symbols s.placeholder ∧ (s.pass = .second → i.Known s.symbols)) ∧
    ∀ next t, Part.directive.run ⟨place :: ts, stop⟩ s = .ok next t →
      next = stop.index ∧
      ∃ ns data, DataItem.Numbers s.symbols s.placeholder (d.emitted items) ns ∧ cell.Stores ns data ∧
        data.length = cell.size * DataItem.count (d.emitted items) ∧
        t = { s with
          pc := s.pc + data.length
          output := if s.pass = .second then s.output ++ data else s.output
          notes := s.notes ++
            List.replicate (items.length - (d.emitted items).length) (.terminator d place.line) } := by
  constructor
  · constructor
    · rintro ⟨next, t, hrun⟩
      exact ((Part.run_data hd hplace hitems).1 hrun).2.1
    · intro haccepted
      exact ⟨_, _, (Part.run_data hd hplace hitems).2 ⟨rfl, haccepted, rfl⟩⟩
  · intro next t hrun
    obtain ⟨rfl, -, rfl⟩ := (Part.run_data hd hplace hitems).1 hrun
    obtain ⟨ns, hns, hstores⟩ := DataItem.exists_numbers cell s (d.emitted items)
    refine ⟨rfl, ns, _, hns, hstores, ?_, rfl⟩
    rw [hstores.length_eq, hns.length_eq]

private def placed (i : Nat) (l : Lexeme) : Token :=
  ⟨l, i, "main.asm", 1, i + 1⟩

/-- The items of `db "a",0-q,"b",0`. -/
private def mixedItems : List DataItem :=
  [.text "a" (placed 1 (.text "a")),
    .sum ⟨placed 3 (.integer 0), [⟨1, .number 0, placed 3 (.integer 0)⟩, ⟨-1, .symbol "q", placed 5 (.identifier "q")⟩]⟩
      [placed 3 (.integer 0), placed 4 .dec, placed 5 (.identifier "q")],
    .text "b" (placed 7 (.text "b")),
    .sum ⟨placed 9 (.integer 0), [⟨1, .number 0, placed 9 (.integer 0)⟩]⟩ [placed 9 (.integer 0)]]

private def mixedTokens : List Token :=
  [placed 1 (.text "a"), placed 2 .comma, placed 3 (.integer 0), placed 4 .dec, placed 5 (.identifier "q"),
    placed 6 .comma, placed 7 (.text "b"), placed 8 .comma, placed 9 (.integer 0)]

theorem data_directives_emit_their_items_mixed :
    ∃ (next : Nat) (t : State) (data : List UInt8),
      Part.directive.run ⟨placed 0 (.directive .db) :: mixedTokens, placed 10 .newline⟩
        { base := 0, pass := .second, symbols := { constants := [⟨"q", 1, none⟩] } } = .ok next t ∧
      next = 10 ∧ Cell.Stores .byte [0x61, -1, 0x62] data ∧ t.output.toList = data ∧ t.pc = 3 ∧
      t.notes = [.terminator .db 1] := by
  have hminus : Expr.Signs (-1) [placed 4 .dec] := show Expr.Signs (-1 * 1) _ from .cons .minus .nil
  have hitems : DataItem.Separated mixedItems mixedTokens := by
    refine .more rfl rfl (.more ⟨?_, rfl⟩ rfl (.more rfl rfl (.one ⟨.one (.mk .nil (.integer 0)), rfl⟩)))
    exact .more (.one (.mk .nil (.integer 0))) (.mk hminus (.identifier "q")) (by decide)
  let s : State := { base := 0, pass := .second, symbols := { constants := [⟨"q", 1, none⟩] } }
  have hplace : (placed 0 (.directive .db)).lexeme = .directive .db := rfl
  have hemitted : Directive.emitted .db mixedItems = mixedItems.take 3 := rfl
  obtain ⟨hiff, hall⟩ := data_directives_emit_their_items rfl hplace hitems (placed 10 .newline) s
  have haccepted : ∀ i ∈ mixedItems.take 3,
      i.Fits .byte s.symbols s.placeholder ∧ (s.pass = .second → i.Known s.symbols) := by
    refine List.forall_mem_cons.2 ⟨⟨?_, fun _ => trivial⟩, List.forall_mem_cons.2 ⟨⟨?_, fun _ => ?_⟩,
      List.forall_mem_singleton.2 ⟨?_, fun _ => trivial⟩⟩⟩
    · exact List.forall_mem_singleton.2 (by decide)
    · intro _ n hn
      rw [Term.addUp_iff.1 hn]
      constructor <;> decide +kernel
    · exact List.forall_mem_cons.2 ⟨⟨0, .number 0⟩, List.forall_mem_singleton.2 ⟨1, .constant (by decide +kernel)⟩⟩
    · exact List.forall_mem_singleton.2 (by decide)
  obtain ⟨next, t, hrun⟩ := hiff.2 (hemitted ▸ haccepted)
  obtain ⟨hnext, ns, data, hns, hstores, hlength, rfl⟩ := hall next t hrun
  rw [hemitted] at hns hlength
  have hnumbers : ns = [0x61, -1, 0x62] := by
    cases hns with
    | text hns =>
      cases hns with
      | sum hn hns =>
        rw [Term.addUp_iff.1 hn]
        cases hns with
        | text hns =>
          cases hns
          decide +kernel
  subst hnumbers
  have hthree : data.length = 3 := hlength
  refine ⟨_, _, data, hrun, hnext, hstores, by simp [s], ?_, by rw [hemitted]; rfl⟩
  show (0 : Int) + data.length = 3
  omega

end Mc6809
