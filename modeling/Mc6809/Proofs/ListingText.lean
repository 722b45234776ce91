import Mc6809.Proofs.Numerals
import Mc6809.Proofs.Quoting

/-!
# Listings that are read back

A row of a listing starts with its address, and the columns behind it hold up to four bytes.  Both can be read from
the text again (`PrintedRow.read?`).  The bytes of all rows are the code, and the address of a row is the program
counter at which its first byte was stored (`Visit.PrintedAs`), since a statement stores its bytes one after the other
from its own address on (`Visit.stored_eq`).
-/

namespace Mc6809

open Lexer

/-! ### Bytes and the program counter -/

/-- Bytes one after the other from an address on. -/
def addressed (address : Int) : List UInt8 → List (Int × UInt8)
  | [] => []
  | b :: bs => (address, b) :: addressed (address + 1) bs

private theorem addressed_append (address : Int) (bs cs : List UInt8) :
    addressed address (bs ++ cs) = addressed address bs ++ addressed (address + bs.length) cs := by
  induction bs generalizing address with
  | nil => simp [addressed]
  | cons b bs ih =>
    have hnext : address + 1 + bs.length = address + ((b :: bs).length : Nat) := by
      rw [List.length_cons]
      omega
    rw [List.cons_append, addressed, addressed, ih, hnext, List.cons_append]

private theorem map_snd_addressed (address : Int) (bs : List UInt8) : (addressed address bs).map Prod.snd = bs := by
  induction bs generalizing address with
  | nil => rfl
  | cons b bs ih => rw [addressed, List.map_cons, ih]

namespace Action

/-- The bytes that actions store one after the other, each with the program counter that it is stored at. -/
def stored (s : State) : List Action → List (Int × UInt8)
  | [] => []
  | a :: as =>
    match a.run s with
    | .error _ _ => []
    | .ok () t => addressed s.pc (t.output.toList.drop s.output.size) ++ stored t as

variable {s t : State} {as : List Action}

private theorem stored_cons {a : Action} {bytes : List UInt8} (h : a.Does s t)
    (hout : t.output.toList = s.output.toList ++ bytes) (as : List Action) :
    stored s (a :: as) = addressed s.pc bytes ++ stored t as := by
  have hdrop : t.output.toList.drop s.output.size = bytes := by
    rw [hout]
    exact List.drop_left' (by simp)
  rw [stored, Action.run_eq_ok.2 h]
  dsimp only
  rw [hdrop]

/-- Actions that set no origin store their bytes one after the other. -/
private theorem DoAll.stored_eq (h : DoAll s as t) (hp : s.pass = .second) (ho : ∀ a ∈ as, a.isOrigin = false) :
    ∃ bytes, t.output.toList = s.output.toList ++ bytes ∧ stored s as = addressed s.pc bytes := by
  induction h with
  | nil s => exact ⟨[], by simp, rfl⟩
  | @cons s t u a as h _ ih =>
    obtain ⟨front, hfront, hpc⟩ := h.appends hp
    obtain ⟨ha, has⟩ := List.forall_mem_cons.1 ho
    obtain ⟨back, hback, hstored⟩ := ih (h.frame.pass.trans hp) has
    refine ⟨front ++ back, by rw [hback, hfront, List.append_assoc], ?_⟩
    rw [stored_cons h hfront, hstored, hpc ha, addressed_append]

end Action

namespace Visit

/-- The bytes that a line of the second pass stores, each with the program counter that it is stored at.  Definitions
of constants are skipped. -/
def stored (v : Visit) : List (Int × UInt8) :=
  match v.line.statement? with
  | none => []
  | some st => if st.constants then [] else Action.stored v.before st.actions

/-- A line stores its bytes from its own address on. -/
theorem stored_eq {v : Visit} (hp : v.before.pass = .second) (hr : v.line.run v.before = .ok () v.after) :
    v.stored = addressed v.before.pc v.data := by
  rcases hl : v.line.statement? with _ | st
  · have hdata : v.data = [] := data_of_append (by simp [Line.eq_of_run hl hr])
    simp [stored, hl, hdata, addressed]
  · obtain ⟨-, u, hafter, ⟨hc, hu⟩ | ⟨hc, ha⟩⟩ := (Line.does_of_run hl hr).of_second hp
    · have hdata : v.data = [] := data_of_append (by simp [hafter, hu, State.record])
      simp [stored, hl, hc, hdata, addressed]
    · have hstored : v.stored = Action.stored v.before st.actions := by simp [stored, hl, hc]
      have hout : v.after.output = u.output := by
        rw [hafter]
        rfl
      rcases ho : st.origin? with _ | e
      · have hnone := Statement.isOrigin_eq_false (Line.group_of_statement? hl) ho
        obtain ⟨bytes, hbytes, haddressed⟩ := ha.stored_eq hp hnone
        rw [hstored, haddressed, data_of_append (hout ▸ hbytes)]
      · -- An origin moves the program counter, but it is alone and stores nothing.
        rw [Statement.actions_of_origin? ho] at ha hstored
        obtain ⟨bytes, hbytes, -⟩ := ha.singleton.appends hp
        rw [hstored, Action.stored_cons ha.singleton hbytes, data_of_append (hout ▸ hbytes)]
        exact List.append_nil _

end Visit

/-! ### Text in columns -/

namespace Text

/-- The stretches of a text between blanks. -/
def words (cs : List Char) : List (List Char) :=
  (cs.splitOn ' ').filter (· ≠ [])

/-- A text is cut at each of its blanks. -/
private theorem words_append_blank (cs ds : List Char) : words (cs ++ ' ' :: ds) = words cs ++ words ds := by
  rw [words, List.splitOn_append_cons_self, List.filter_append]
  rfl

private theorem words_of_notMem {cs : List Char} (hne : cs ≠ []) (h : ' ' ∉ cs) : words cs = [cs] := by
  rw [words, List.splitOn_eq_singleton h]
  simp [hne]

private theorem words_append_replicate (cs : List Char) (k : Nat) : words (cs ++ List.replicate k ' ') = words cs := by
  induction k with
  | zero => rw [List.replicate_zero, List.append_nil]
  | succ k ih =>
    have hlast : cs ++ List.replicate (k + 1) ' ' = (cs ++ List.replicate k ' ') ++ [' '] := by
      rw [List.replicate_succ', List.append_assoc]
    rw [hlast, words_append_blank, ih]
    exact List.append_nil _

private theorem words_intercalate {ls : List (List Char)} (h : ∀ l ∈ ls, l ≠ [] ∧ ' ' ∉ l) :
    words ([' '].intercalate ls) = ls := by
  induction ls with
  | nil => rfl
  | cons l ls ih =>
    obtain ⟨⟨hne, hl⟩, hls⟩ := List.forall_mem_cons.1 h
    cases ls with
    | nil => rw [List.intercalate_singleton, words_of_notMem hne hl]
    | cons k ls =>
      rw [List.intercalate_cons_cons, List.append_assoc, List.singleton_append, words_append_blank, ih hls,
        words_of_notMem hne hl, List.singleton_append]

/-- Read a number with so many hexadecimal digits. -/
def hexNumber? (width : Nat) (cs : List Char) : Option Nat :=
  if cs.length = width ∧ cs.all (isDigitOf .hexadecimal) then some (numberOf .hexadecimal cs) else none

private theorem hexNumber?_paddedHex {width n : Nat} (h : (hexDigits n).length ≤ width) :
    hexNumber? width (paddedHex width n) = some n := by
  obtain ⟨hdigits, hvalue⟩ := numberOf_paddedHex width n
  rw [hexNumber?, if_pos ⟨length_paddedHex h, List.all_eq_true.2 hdigits⟩, hvalue]

private theorem isBlank_paddedHex (width n : Nat) : ∀ c ∈ paddedHex width n, isBlank c = false := fun c hc =>
  Numeral.isBlank_of_digit? ((numberOf_paddedHex width n).1 c hc)

private theorem length_hexDigits_byte (b : UInt8) : (hexDigits b.toNat).length ≤ 2 := by
  rw [hexDigits, List.length_map, Nat.length_toDigits_le_iff (by decide) (by decide)]
  exact b.toNat_lt

private theorem length_hexDigits_wrapped (address : Int) : (hexDigits (address % 0x10000).toNat).length ≤ 4 := by
  rw [hexDigits, List.length_map, Nat.length_toDigits_le_iff (by decide) (by decide)]
  show (address % 0x10000).toNat < 0x10000
  omega

end Text

/-! ### Rows -/

/-- What a row of a listing shows: an address and bytes. -/
structure PrintedRow where
  address : Nat
  bytes : List UInt8
  deriving DecidableEq

namespace PrintedRow

/-- Read the bytes in the columns of a row. -/
def readBytes? (columns : List Char) : Option (List UInt8) :=
  (Text.words columns).mapM fun word => (Text.hexNumber? 2 word).map UInt8.ofNat

/-- Read a row: a dollar sign, an address of four digits and, in columns 8 to 18, bytes of two digits each. -/
def read? (line : List Char) : Option PrintedRow :=
  if line.head? = some '$' then
    (Text.hexNumber? 4 ((line.drop 1).take 4)).bind fun address =>
      (readBytes? ((line.drop 7).take 11)).map fun bytes => ⟨address, bytes⟩
  else none

end PrintedRow

namespace Listing

private theorem words_bytesText (bytes : List UInt8) :
    Text.words (bytesText bytes) = bytes.map fun b => Text.paddedHex 2 b.toNat := by
  refine Text.words_intercalate fun l hl => ?_
  obtain ⟨b, -, rfl⟩ := List.mem_map.1 hl
  refine ⟨Text.paddedHex_ne_nil 2 b.toNat, fun hblank => ?_⟩
  cases Text.isBlank_paddedHex 2 b.toNat ' ' hblank

/-- Bytes are read back, with blanks behind them or without. -/
private theorem readBytes?_bytesText (bytes : List UInt8) (k : Nat) :
    PrintedRow.readBytes? (bytesText bytes ++ List.replicate k ' ') = some bytes := by
  rw [PrintedRow.readBytes?, Text.words_append_replicate, words_bytesText]
  induction bytes with
  | nil => rfl
  | cons b bytes ih =>
    have hb : (Text.hexNumber? 2 (Text.paddedHex 2 b.toNat)).map UInt8.ofNat = some b := by
      rw [Text.hexNumber?_paddedHex (Text.length_hexDigits_byte b), Option.map_some, UInt8.ofNat_toNat]
    rw [List.map_cons, List.mapM_cons, hb, ih]
    rfl

private theorem length_bytesText {bytes : List UInt8} (h : bytes.length ≤ 4) : (bytesText bytes).length ≤ 11 := by
  have hpair : ∀ b : UInt8, (Text.paddedHex 2 b.toNat).length = 2 := fun b =>
    Text.length_paddedHex (Text.length_hexDigits_byte b)
  have hlength : ∀ bytes : List UInt8, (bytesText bytes).length ≤ 3 * bytes.length - 1 := by
    intro bytes
    induction bytes with
    | nil => exact Nat.le_refl 0
    | cons b bytes ih =>
      cases bytes with
      | nil => simp [bytesText, hpair]
      | cons c bytes =>
        rw [bytesText, List.map_cons] at ih
        rw [bytesText, List.map_cons, List.map_cons, List.intercalate_cons_cons, List.length_append,
          List.length_append, hpair]
        simp only [List.length_cons, List.length_nil] at ih ⊢
        omega
  have := hlength bytes
  omega

/-- A row shows its address and whatever bytes stand in its columns. -/
private theorem read?_addressText (address : Int) (columns : List Char) :
    PrintedRow.read? (addressText address ++ [' ', ' '] ++ columns) =
      (PrintedRow.readBytes? (columns.take 11)).map fun bytes => ⟨(address % 0x10000).toNat, bytes⟩ := by
  have hlength : (Text.paddedHex 4 (address % 0x10000).toNat).length = 4 :=
    Text.length_paddedHex (Text.length_hexDigits_wrapped address)
  have hdigits : (((addressText address ++ [' ', ' '] ++ columns).drop 1).take 4) =
      Text.paddedHex 4 (address % 0x10000).toNat := by
    rw [addressText, List.append_assoc, List.cons_append, List.drop_succ_cons, List.drop_zero]
    exact List.take_left' hlength
  have hcolumns : (addressText address ++ [' ', ' '] ++ columns).drop 7 = columns := by
    refine List.drop_left' ?_
    simp [addressText, hlength]
  rw [PrintedRow.read?, if_pos (by simp [addressText]), hdigits, hcolumns,
    Text.hexNumber?_paddedHex (Text.length_hexDigits_wrapped address), Option.bind_some]

private theorem read?_headRow (address : Int) {bytes : List UInt8} (h : bytes.length ≤ 4) (line : Nat)
    (source : String) :
    PrintedRow.read? (headRow address bytes line source) = some ⟨(address % 0x10000).toNat, bytes⟩ := by
  have hlength := length_bytesText h
  rw [headRow]
  simp only [List.append_assoc (addressText address ++ [' ', ' '])]
  rw [read?_addressText, List.append_assoc, List.append_assoc, List.append_assoc]
  rw [List.take_left' (by simp [Text.padRight]; omega), Text.padRight, readBytes?_bytesText, Option.map_some]

private theorem read?_nextRow (address : Int) {bytes : List UInt8} (h : bytes.length ≤ 4) :
    PrintedRow.read? (nextRow address bytes) = some ⟨(address % 0x10000).toNat, bytes⟩ := by
  have hbytes := readBytes?_bytesText bytes 0
  rw [List.replicate_zero, List.append_nil] at hbytes
  rw [nextRow, read?_addressText, List.take_of_length_le (length_bytesText h), hbytes, Option.map_some]

/-! ### Statements -/

/-- What rows with so many bytes each show, from an address on. -/
def printedRows (address : Int) : List (List UInt8) → List PrintedRow
  | [] => []
  | bytes :: rest => ⟨(address % 0x10000).toNat, bytes⟩ :: printedRows (address + 4) rest

/-- What the rows of a statement show. -/
def printed (address : Int) (data : List UInt8) : List PrintedRow :=
  match rows data with
  | [] => [⟨(address % 0x10000).toNat, []⟩]
  | bytes :: rest => printedRows address (bytes :: rest)

private theorem length_of_mem_rows {data bytes : List UInt8} (h : bytes ∈ rows data) :
    bytes ≠ [] ∧ bytes.length ≤ 4 := by
  fun_induction rows data with
  | case1 a b c d rest ih =>
    rcases List.mem_cons.1 h with rfl | h
    · simp
    · exact ih h
  | case2 => cases h
  | case3 short hfour hne =>
    rw [List.mem_singleton.1 h]
    refine ⟨hne, ?_⟩
    rcases short with _ | ⟨a, _ | ⟨b, _ | ⟨c, _ | ⟨d, rest⟩⟩⟩⟩
    · simp
    · simp
    · simp
    · simp
    · exact absurd rfl (hfour a b c d rest)

private theorem flatten_rows (data : List UInt8) : (rows data).flatten = data := by
  fun_induction rows data with
  | case1 a b c d rest ih => simp [ih]
  | case2 => rfl
  | case3 => simp

private theorem rows_ne_nil {data : List UInt8} (h : data ≠ []) : rows data ≠ [] := by
  intro hnil
  rw [← flatten_rows data, hnil] at h
  exact h rfl

private theorem read?_nextRows {chunks : List (List UInt8)} (h : ∀ bytes ∈ chunks, bytes.length ≤ 4) (address : Int) :
    (nextRows address chunks).map PrintedRow.read? = (printedRows address chunks).map some := by
  induction chunks generalizing address with
  | nil => rfl
  | cons bytes rest ih =>
    obtain ⟨hbytes, hrest⟩ := List.forall_mem_cons.1 h
    rw [nextRows, printedRows, List.map_cons, List.map_cons, read?_nextRow address hbytes, ih hrest]

/-- The rows of a statement are read back. -/
private theorem read?_rowsOf (lines : List String) (r : Row) :
    (rowsOf lines r).map PrintedRow.read? = (printed r.address r.data).map some := by
  have hfour : ∀ bytes ∈ rows r.data, bytes.length ≤ 4 := fun bytes h => (length_of_mem_rows h).2
  have hnone : ([] : List UInt8).length ≤ 4 := by simp
  unfold rowsOf printed
  rcases hrows : rows r.data with _ | ⟨bytes, rest⟩
  · simp [read?_headRow r.address hnone]
  · rw [hrows] at hfour
    obtain ⟨hbytes, hrest⟩ := List.forall_mem_cons.1 hfour
    simp only [List.map_cons, printedRows, read?_headRow r.address hbytes, read?_nextRows hrest]

private theorem bytes_printedRows (address : Int) (chunks : List (List UInt8)) :
    (printedRows address chunks).flatMap PrintedRow.bytes = chunks.flatten := by
  induction chunks generalizing address with
  | nil => rfl
  | cons bytes rest ih => rw [printedRows, List.flatMap_cons, ih, List.flatten_cons]

private theorem printed_nil (address : Int) : printed address [] = [⟨(address % 0x10000).toNat, []⟩] :=
  rfl

private theorem printed_of_ne_nil (address : Int) {data : List UInt8} (h : data ≠ []) :
    printed address data = printedRows address (rows data) := by
  unfold printed
  split
  · next hnil => exact absurd hnil (rows_ne_nil h)
  · next hrows => rw [hrows]

private theorem bytes_printed (address : Int) (data : List UInt8) :
    (printed address data).flatMap PrintedRow.bytes = data := by
  by_cases h : data = []
  · rw [h]
    rfl
  · rw [printed_of_ne_nil address h, bytes_printedRows, flatten_rows]

private theorem exists_of_mem_printedRows {address : Int} {chunks : List (List UInt8)} {row : PrintedRow}
    (h : row ∈ printedRows address chunks) : row.bytes ∈ chunks := by
  induction chunks generalizing address with
  | nil => cases h
  | cons bytes rest ih =>
    rcases List.mem_cons.1 h with rfl | h
    · exact List.mem_cons_self ..
    · exact List.mem_cons_of_mem _ (ih h)

/-- The address of a row is that of its first byte. -/
private theorem first_of_printedRows {address : Int} {data : List UInt8} {k : Nat} {row : PrintedRow} {b : UInt8}
    {bs : List UInt8} (h : (printedRows address (rows data))[k]? = some row) (hb : row.bytes = b :: bs) :
    ∃ pc, (addressed address data)[(((printedRows address (rows data)).take k).flatMap PrintedRow.bytes).length]? =
      some (pc, b) ∧ (row.address : Int) = pc % 0x10000 := by
  have hwrap : ∀ address : Int, ((address % 0x10000).toNat : Int) = address % 0x10000 := by
    intro address
    omega
  -- A row in front holds four bytes, so the addresses of the rows keep step with those of the bytes.
  fun_induction rows data generalizing address k with
  | case1 x y z w rest ih =>
    rw [printedRows] at h ⊢
    cases k with
    | zero =>
      cases h
      cases hb
      exact ⟨address, rfl, hwrap address⟩
    | succ k =>
      obtain ⟨pc, hpc, haddress⟩ := ih h
      refine ⟨pc, ?_, haddress⟩
      have hfour : address + 1 + 1 + 1 + 1 = address + 4 := by omega
      rw [List.take_succ_cons, List.flatMap_cons, List.length_append, addressed, addressed, addressed, addressed,
        hfour, ← hpc]
      simp [Nat.add_comm 4]
  | case2 => cases h
  | case3 short _ _ =>
    cases k with
    | zero =>
      cases h
      cases hb
      exact ⟨address, rfl, hwrap address⟩
    | succ k => cases h

end Listing

/-- The rows that show a line of the second pass.  A row with bytes has the program counter of the first one for its
address, and a statement without bytes has a row with its own. -/
structure Visit.PrintedAs (v : Visit) (rows : List PrintedRow) : Prop where
  nonempty : rows ≠ []
  width : ∀ row ∈ rows, row.bytes.length ≤ 4
  bytes : rows.flatMap PrintedRow.bytes = v.stored.map Prod.snd
  first : ∀ k row b bs, rows[k]? = some row → row.bytes = b :: bs →
    ∃ pc, v.stored[((rows.take k).flatMap PrintedRow.bytes).length]? = some (pc, b) ∧ (row.address : Int) = pc % 0x10000
  empty : ∀ row ∈ rows, row.bytes = [] → rows = [row] ∧ (row.address : Int) = v.before.pc % 0x10000

private theorem Visit.printedAs {v : Visit} (hp : v.before.pass = .second) (hr : v.line.run v.before = .ok () v.after) :
    v.PrintedAs (Listing.printed v.before.pc v.data) := by
  have hstored := stored_eq hp hr
  have hbytes : (Listing.printed v.before.pc v.data).flatMap PrintedRow.bytes = v.stored.map Prod.snd := by
    rw [Listing.bytes_printed, hstored, map_snd_addressed]
  by_cases hdata : v.data = []
  · rw [hdata, Listing.printed_nil] at hbytes ⊢
    refine ⟨by simp, by simp, hbytes, ?_, ?_⟩
    · intro k row b bs hk hb
      cases List.mem_singleton.1 (List.mem_of_getElem? hk)
      cases hb
    · intro row hrow _
      cases List.mem_singleton.1 hrow
      refine ⟨rfl, ?_⟩
      show ((v.before.pc % 0x10000).toNat : Int) = v.before.pc % 0x10000
      omega
  · rw [Listing.printed_of_ne_nil v.before.pc hdata] at hbytes ⊢
    have hrow : ∀ row ∈ Listing.printedRows v.before.pc (Listing.rows v.data),
        row.bytes ≠ [] ∧ row.bytes.length ≤ 4 := fun row h =>
      Listing.length_of_mem_rows (Listing.exists_of_mem_printedRows h)
    refine ⟨?_, fun row h => (hrow row h).2, hbytes, ?_, fun row h hempty => absurd hempty (hrow row h).1⟩
    · intro hnil
      rw [hnil, hstored, map_snd_addressed] at hbytes
      exact hdata hbytes.symm
    · intro k row b bs hk hb
      rw [hstored]
      exact Listing.first_of_printedRows hk hb

/-! ### The text -/

/-- The rows of a listing: the lines behind the header up to the first empty one. -/
def rowLines (text : String) : List (List Char) :=
  ((Text.feedLines text.toList).drop 5).takeWhile (· ≠ [])

namespace Listing

private theorem rowLines_text {lines : List String} {s : State}
    (h : ∀ row ∈ s.listing.toList.flatMap (rowsOf lines), row ≠ [] ∧ '\n' ∉ row) :
    rowLines (text lines s) = s.listing.toList.flatMap (rowsOf lines) := by
  let rest := "Symbol Table".toList :: List.replicate 30 '-' :: s.symbols.sorted.map symbolRow
  have htext : (text lines s).toList =
      Text.fed (header ++ s.listing.toList.flatMap (rowsOf lines)) ++ '\n' :: Text.fed rest := by
    simp [text, textLines, Text.fed, rest]
  have hfeeds : ∀ row ∈ header ++ s.listing.toList.flatMap (rowsOf lines), '\n' ∉ row := by
    intro row hrow
    rcases List.mem_append.1 hrow with hrow | hrow
    · have hheader : (header.all fun row => !row.contains '\n') = true := by decide
      simpa using List.all_eq_true.1 hheader row hrow
    · exact (h row hrow).2
  have hend : Text.feedLines ('\n' :: Text.fed rest) = [] :: Text.feedLines (Text.fed rest) := by
    simp [Text.feedLines]
  have hrows : ∀ row ∈ s.listing.toList.flatMap (rowsOf lines), decide (row ≠ []) = true := fun row hrow =>
    decide_eq_true (h row hrow).1
  have hheader : ∀ ls, (header ++ ls).drop 5 = ls := fun _ => rfl
  rw [rowLines, htext, Text.feedLines_fed_append hfeeds, hend, List.append_assoc, hheader,
    List.takeWhile_append_of_pos hrows, List.takeWhile_cons_of_neg (by simp), List.append_nil]

private theorem feed_notMem_nextRow (address : Int) (bytes : List UInt8) : '\n' ∉ nextRow address bytes := by
  have hhex : ∀ width n, '\n' ∉ Text.paddedHex width n := by
    intro width n hfeed
    cases Text.isBlank_paddedHex width n '\n' hfeed
  have hbytes : '\n' ∉ bytesText bytes := by
    induction bytes with
    | nil => simp [bytesText]
    | cons b bytes ih =>
      cases bytes with
      | nil => simpa [bytesText] using hhex 2 b.toNat
      | cons c bytes =>
        rw [bytesText, List.map_cons] at ih
        rw [bytesText, List.map_cons, List.map_cons, List.intercalate_cons_cons]
        simp only [List.mem_append, List.mem_singleton, not_or]
        exact ⟨⟨hhex 2 b.toNat, by decide⟩, ih⟩
  simp only [nextRow, addressText, List.mem_append, List.mem_cons, not_or]
  exact ⟨⟨⟨by decide, hhex _ _⟩, by decide, by decide, by simp⟩, hbytes⟩

private theorem feed_notMem_headRow (address : Int) (bytes : List UInt8) (line : Nat) {source : String}
    (h : '\n' ∉ source.toList) : '\n' ∉ headRow address bytes line source := by
  have hfront := feed_notMem_nextRow address bytes
  have hline : '\n' ∉ (Nat.repr line).toList := by
    rw [Nat.toList_repr]
    intro hfeed
    cases Nat.isDigit_of_mem_toDigits (by decide) (by decide) hfeed
  have hblank : ∀ k, '\n' ∉ List.replicate k ' ' := fun k hfeed => by
    cases List.eq_of_mem_replicate hfeed
  simp only [nextRow, List.mem_append, not_or] at hfront
  simp only [headRow, Text.padRight, Text.padLeft, List.mem_append, not_or]
  exact ⟨⟨⟨⟨⟨hfront.1, hfront.2, hblank _⟩, by decide⟩, hblank _, hline⟩, by decide⟩, h⟩

private theorem feed_notMem_nextRows {chunks : List (List UInt8)} {address : Int} {row : List Char}
    (h : row ∈ nextRows address chunks) : '\n' ∉ row := by
  induction chunks generalizing address with
  | nil => cases h
  | cons bytes rest ih =>
    rcases List.mem_cons.1 h with rfl | h
    · exact feed_notMem_nextRow address bytes
    · exact ih h

/-- No row has a line feed in it, since the lines of a source have none. -/
private theorem feed_notMem_rowsOf {source : String} {r : Row} {row : List Char}
    (h : row ∈ rowsOf (quotedLines source) r) :
    '\n' ∉ row := by
  have hquoted : '\n' ∉ ((lineText? (quotedLines source) r.line).getD "").toList := by
    unfold lineText?
    split
    · decide
    · rcases hline : (quotedLines source)[r.line - 1]? with _ | line
      · decide
      · obtain ⟨cs, hcs, rfl⟩ := List.mem_map.1 (List.mem_of_getElem? hline)
        rw [Option.getD_some, String.toList_ofList]
        intro hfeed
        cases Text.isSeparator_of_mem_lines hcs '\n' hfeed
  unfold rowsOf at h
  dsimp only at h
  split at h
  · rw [List.mem_singleton.1 h]
    exact feed_notMem_headRow _ _ _ hquoted
  · rcases List.mem_cons.1 h with rfl | h
    · exact feed_notMem_headRow _ _ _ hquoted
    · exact feed_notMem_nextRows h

private theorem ne_nil_of_mem_rowsOf {lines : List String} {r : Row} {row : List Char} (h : row ∈ rowsOf lines r) :
    row ≠ [] := by
  rintro rfl
  have hread : PrintedRow.read? [] ∈ (printed r.address r.data).map some := by
    rw [← read?_rowsOf lines r]
    exact List.mem_map_of_mem h
  obtain ⟨printed, -, hprinted⟩ := List.mem_map.1 hread
  cases hprinted

end Listing

/-- The lines of the second pass that have a statement, each with the rows that show it. -/
def shownRows (vs : List Visit) : List (Visit × List PrintedRow) :=
  (vs.filter fun v => v.line.statement?.isSome).map fun v => (v, Listing.printed v.before.pc v.data)

private theorem flatMap_shownRows (vs : List Visit) :
    (shownRows vs).flatMap Prod.snd =
      ((vs.flatMap Visit.entries).map Prod.snd).flatMap fun r => Listing.printed r.address r.data := by
  induction vs with
  | nil => rfl
  | cons v vs ih =>
    rw [List.flatMap_cons, List.map_append, List.flatMap_append, ← ih, Visit.entries, shownRows, shownRows]
    cases hl : v.line.statement? <;> simp [hl]

/-- The text of a listing determines the code.  The lines behind its header, up to the first empty one, are rows that
can be read: each starts with a dollar sign and an address of four digits, and columns 8 to 18 hold up to four bytes.
The bytes of all rows are the code.  The rows show the statements of the source in their order, and the address of each
is, modulo 65536, the program counter at which its first byte was stored, or that of its statement if there is none. -/
theorem listing_text_determines_code {z z' : Session} {source file : String} {base : Option Int} {log : List Report}
    {code : List UInt8} (h : z.assemble source base file = (z', log, .ok code)) :
    ∃ (text : String) (shown : List (Visit × List PrintedRow)), z'.listing = .ok text ∧
      (rowLines text).map PrintedRow.read? = (shown.flatMap Prod.snd).map some ∧
      (shown.flatMap Prod.snd).flatMap PrintedRow.bytes = code ∧
      shown.map Prod.fst = (z.secondPass source base file).filter (fun v => v.line.statement?.isSome) ∧
      ∀ p ∈ shown, p.1.PrintedAs p.2 := by
  obtain ⟨r, tokens, symbols, s₁, s₂, hlast, hcode, hrun⟩ := Session.assemble_eq_ok h
  have hlines : r.lines = quotedLines source := by
    have hresult : (z.assemble source base file).1.last = _ :=
      (Session.assemble_of_run hrun.seeded hrun.tokenized).1
    rw [h, hlast] at hresult
    cases hresult
    rfl
  have hlisting : r.state.listing.toList = ((z.secondPass source base file).flatMap Visit.entries).map Prod.snd :=
    hrun.listing_eq ▸ hrun.second.listing_eq rfl
  have hrows : rowLines (Listing.text r.lines r.state) = r.state.listing.toList.flatMap (Listing.rowsOf r.lines) := by
    refine Listing.rowLines_text fun row hrow => ?_
    obtain ⟨entry, -, hrow⟩ := List.mem_flatMap.1 hrow
    exact ⟨Listing.ne_nil_of_mem_rowsOf hrow, Listing.feed_notMem_rowsOf (hlines ▸ hrow)⟩
  have hshown := flatMap_shownRows (z.secondPass source base file)
  rw [← hlisting] at hshown
  refine ⟨Listing.text r.lines r.state, shownRows (z.secondPass source base file), ?_, ?_, ?_, ?_, ?_⟩
  · simp [Session.listing, hlast]
  · rw [hrows, hshown, List.map_flatMap, List.map_flatMap]
    exact congrArg (r.state.listing.toList.flatMap ·) (funext (Listing.read?_rowsOf r.lines))
  · have hbytes := hrun.second.output_eq_entries rfl
    rw [← hlisting] at hbytes
    rw [hshown, List.flatMap_assoc, hcode, hrun.output_eq, hbytes]
    simp only [Listing.bytes_printed]
    rfl
  · simp [shownRows, Function.comp_def]
  · intro p hp
    obtain ⟨v, hv, rfl⟩ := List.mem_map.1 hp
    have hmem := (List.mem_filter.1 hv).1
    exact Visit.printedAs (hrun.second.pass_of_mem hmem) (hrun.second.run_of_mem hmem).2

/-- A source with bytes on both sides of the end of the memory, and statements without bytes. -/
private def acrossTheTop : String :=
  " org $FFFE\n fcb 1,2,3,4,5\nn = 2\nq: rts ; $\n"

theorem listing_text_determines_code_across_the_top :
    ∃ (z' : Session) (log : List Report) (text : String) (shown : List (Visit × List PrintedRow)),
      Session.assemble {} acrossTheTop none "main.asm" = (z', log, .ok [1, 2, 3, 4, 5, 0x39]) ∧
      z'.last.map (fun r => r.state.listing.toList) =
        some [⟨0x4000, [], 1⟩, ⟨0xFFFE, [1, 2, 3, 4, 5], 2⟩, ⟨0x10003, [], 3⟩, ⟨0x10003, [0x39], 4⟩] ∧
      z'.listing = .ok text ∧ (rowLines text).map PrintedRow.read? = (shown.flatMap Prod.snd).map some ∧
      (shown.flatMap Prod.snd).flatMap PrintedRow.bytes = [1, 2, 3, 4, 5, 0x39] ∧
      ∀ p ∈ shown, p.1.PrintedAs p.2 := by
  let z' := (Session.assemble {} acrossTheTop none "main.asm").1
  have hresults : (Session.assemble {} acrossTheTop none "main.asm").2.2.toOption = some [1, 2, 3, 4, 5, 0x39] ∧
      z'.last.map (fun r => r.state.listing.toList) =
        some [⟨0x4000, [], 1⟩, ⟨0xFFFE, [1, 2, 3, 4, 5], 2⟩, ⟨0x10003, [], 3⟩, ⟨0x10003, [0x39], 4⟩] := by
    decide +kernel
  obtain ⟨hcode, hrows⟩ := hresults
  have hrun := Session.assemble_eq hcode
  obtain ⟨text, shown, htext, hread, hbytes, -, hprinted⟩ := listing_text_determines_code hrun
  exact ⟨z', _, text, shown, hrun, hrows, htext, hread, hbytes, hprinted⟩

end Mc6809
