import Mathlib.Data.List.TakeDrop
import Mc6809.Definition
import Mc6809.Proofs.Numerals
import Mc6809.Proofs.Prepending
import Mc6809.Proofs.Quoting
import Mc6809.Proofs.Continuation
import Mc6809.Proofs.UndefinedSymbols

/-!
# Symbol files that are read back

A line of a symbol file is a name, a blank and a value.  The names in the tables are words in small letters
(`Session.Assembled.isWord_of_mem`), since they come from tokens or are given as such.  So no name has a blank in it,
and each line can be cut and its value read (`readSymbol?_entryLine`).  The order is strict because a name has one entry
(`Symbols.sorted_pairwise`).
-/

namespace Mc6809

open Lexer

/-! ### Words -/

/-- A name as it is entered in a table: a word in small letters. -/
structure IsWord (name : String) : Prop where
  nonempty : name ≠ ""
  chars : ∀ c ∈ name.toList, isWordChar c = true ∧ c.toLower = c

private theorem Lexer.isBlank_of_isWordChar {c : Char} (h : isWordChar c = true) : Text.isBlank c = false := by
  have hall : ∀ n < 0x80, isWordChar (Char.ofNat n) = true → Text.isBlank (Char.ofNat n) = false := by
    decide +kernel
  have hc := hall c.toNat (toNat_of_isWordChar h)
  rw [Char.ofNat_toNat] at hc
  exact hc h

private theorem Text.isBlank_of_isSeparator {c : Char} (h : isSeparator c = true) : isBlank c = true := by
  have hall : (['\n', '\r', '\x0b', '\x0c', '\x1c', '\x1d', '\x1e', '\u0085', '\u2028', '\u2029'].all isBlank) =
      true := by decide
  exact List.all_eq_true.1 hall c (by simpa [isSeparator] using h)

/-- What is not blank separates no lines. -/
private theorem Text.isSeparator_of_not_isBlank {c : Char} (h : isBlank c = false) : isSeparator c = false := by
  refine Bool.eq_false_iff.2 fun hc => ?_
  rw [isBlank_of_isSeparator hc] at h
  cases h

namespace IsWord

variable {name : String}

/-- The word characters of a name, in small letters. -/
private theorem of_fold {cs : List Char} (h : name.toList = fold cs) (hne : cs ≠ [])
    (hcs : ∀ c ∈ cs, isWordChar c = true) :
    IsWord name where
  nonempty := by
    rintro rfl
    exact hne (fold_eq_nil.1 h.symm)
  chars := by
    intro c hc
    rw [h] at hc
    obtain ⟨d, hd, rfl⟩ := List.mem_map.1 hc
    exact ⟨(caseless_isWordChar d).trans (hcs d hd), caseless_toLower d⟩

private theorem lower_eq (h : IsWord name) : Text.lower name = name :=
  Text.lower_of_small fun c hc =>
    Text.small_of_toLower (toNat_of_isWordChar (h.chars c hc).1) (h.chars c hc).2

private theorem isBlank_eq (h : IsWord name) : ∀ c ∈ name.toList, Text.isBlank c = false := fun c hc =>
  isBlank_of_isWordChar (h.chars c hc).1

private theorem notMem (h : IsWord name) {d : Char} (hd : isWordChar d = false) : d ∉ name.toList := by
  intro hmem
  rw [(h.chars d hmem).1] at hd
  cases hd

private theorem toList_ne_nil (h : IsWord name) : name.toList ≠ [] := fun hnil =>
  h.nonempty (String.toList_eq_nil_iff.1 hnil)

end IsWord

/-- Names and labels are words. -/
private theorem Lexer.isWord_of_scan {c : Char} {cs : List Char} {s : Scanned} {name : String} (h : scan c cs = .ok s)
    (hs : s.lexeme = .identifier name ∨ s.lexeme = .label name) : IsWord name := by
  rcases hs with hs | hs
  · obtain ⟨hname, hword⟩ := isWordChar_of_identifier h hs
    obtain ⟨text, htext, -⟩ := exists_text_of_scan h
    exact .of_fold hname (by simp [htext]) hword
  have hdigits : ∀ {radix : Radix} {mark cs : List Char}, scanDigits radix mark cs = .ok s → False := by
    intro radix mark cs h
    obtain ⟨n, hn⟩ := integer_of_scanDigits h
    cases hn.symm.trans hs
  cases Scans.of_scan h with
  | word hc =>
    have hne : (c :: cs).takeWhile isWordChar ≠ [] := by
      rw [List.takeWhile_cons_of_pos (by simp [isWordChar, hc])]
      simp
    by_cases hcolon : ∃ rest, (c :: cs).dropWhile isWordChar = ':' :: rest
    · obtain ⟨rest, hd⟩ := hcolon
      rw [scanWord_of_colon hd] at hs
      cases hs
      exact .of_fold String.toList_ofList hne fun d => List.mem_takeWhile_imp
    · rw [scanWord_of_avoids (avoids_eq fun rest hd => hcolon ⟨rest, hd⟩)] at hs
      revert hs
      unfold classify
      dsimp only
      split <;> simp
  | number _ _ h =>
    unfold scanNumber at h
    split at h <;> exact (hdigits h).elim
  | marked _ h => exact (hdigits h).elim
  | text => cases hs
  | character h =>
    obtain ⟨d, hd⟩ := char_of_scanCharacter h
    cases hd.symm.trans hs
  | double hd =>
    cases hs
    unfold double? at hd
    split at hd <;> cases hd
  | sign hl =>
    cases hs
    unfold sign? at hl
    split at hl <;> cases hl

private theorem Lexer.Lexes.exists_scan {start : Bool} {cs : List Char} {ls : List Lexeme} (h : Lexes start cs ls) :
    ∀ l ∈ ls, l = .eof ∨ ∃ c cs s, scan c cs = .ok s ∧ s.lexeme = l := by
  induction h with
  | eof => simp
  | skip _ _ ih => exact ih
  | comment _ _ ih => exact ih
  | @stop c cs s h hs =>
    intro l hl
    rcases List.mem_cons.1 hl with rfl | hl
    · exact .inr ⟨c, cs, s, h, hs⟩
    · exact .inl (List.mem_singleton.1 hl)
  | @next _ c cs s ls h _ _ ih =>
    intro l hl
    rcases List.mem_cons.1 hl with rfl | hl
    · exact .inr ⟨c, cs, s, h, rfl⟩
    · exact ih l hl

/-- The names and the labels among the tokens of a source are words. -/
private theorem isWord_of_tokenize {source file : String} {tokens : List Token} (h : tokenize source file = .ok tokens)
    {t : Token} (ht : t ∈ tokens) {name : String} (hn : t.lexeme = .identifier name ∨ t.lexeme = .label name) :
    IsWord name := by
  obtain ⟨ls, hlexes, htokens⟩ := lexes_of_tokensFrom (tokensFrom_of_tokenize h)
  have hmem : t.lexeme ∈ ls := by
    rw [← map_lexeme_bare file 0 ls, ← htokens, List.map_map]
    exact List.mem_map.2 ⟨t, ht, rfl⟩
  rcases hlexes.exists_scan _ hmem with heof | ⟨c, cs, s, hs, hl⟩
  · rcases hn with hn | hn <;> cases heof.symm.trans hn
  · exact isWord_of_scan hs (hl ▸ hn)

/-! ### Names in the tables -/

/-- A constant that a line defines is named on the line. -/
private theorem Line.identifier_of_definition {l : Line} {s t : State} {name : String} (hb : Precede l.body l.stop)
    (h : l.run s = .ok () t) (hp : s.pass = .first) (hn : name ∈ l.definitions) : name ∈ identifiers l.body := by
  rcases Line.run_eq_ok.1 h with ⟨hnone, -⟩ | ⟨st, hl, hd⟩
  · simp [definitions, actions, hnone] at hn
  · obtain ⟨-, -, -, hf⟩ := hd.of_first hp
    obtain ⟨a, ha, hdefined⟩ := (Line.mem_definitions hl).1 hn
    have hnames : name ∈ a.names := by
      cases a with
      | define =>
        cases hdefined
        exact List.mem_cons_self ..
      | _ => cases hdefined
    rw [Line.identifiers_eq hb hl hf]
    exact List.mem_flatMap.2 ⟨a, ha, hnames⟩

namespace Walked

variable {s t : State} {ls : List Line} {vs : List Visit}

private theorem line_mem (h : Walked s ls vs t) {v : Visit} (hv : v ∈ vs) : v.line ∈ ls := by
  obtain ⟨k, hk⟩ := List.getElem?_of_mem hv
  exact List.mem_of_getElem? (line_of_visits (h.visits_eq.symm ▸ hk))

/-- A constant after the first pass is there from the start or named on a line. -/
private theorem constant_cases (h : Walked s ls vs t) (hp : s.pass = .first) (hb : ∀ l ∈ ls, Precede l.body l.stop)
    {name : String} (hn : name ∈ t.symbols.constants.names) :
    name ∈ s.symbols.constants.names ∨ ∃ l ∈ ls, name ∈ identifiers l.body := by
  let Grows (s t : State) : Prop := ∀ name ∈ t.symbols.constants.names,
    name ∈ s.symbols.constants.names ∨ ∃ l ∈ ls, name ∈ identifiers l.body
  have hgrows : Grows s t := by
    refine (h.across (R := Grows) (fun _ _ => .inl) ?_ ?_).1
    · intro s t u hst htu name hn
      rcases htu name hn with hn | hn
      · exact hst name hn
      · exact .inr hn
    · intro v hv hr name hn
      refine (Line.mem_constants hr hn).imp_right fun hd => ⟨v.line, h.line_mem hv, ?_⟩
      exact Line.identifier_of_definition (hb _ (h.line_mem hv)) hr ((h.pass_of_mem hv).trans hp) hd
  exact hgrows name hn

/-- A label after the first pass is there from the start or written on a line. -/
private theorem label_cases (h : Walked s ls vs t) (hp : s.pass = .first) {name : String}
    (hn : name ∈ t.symbols.labels.names) :
    name ∈ s.symbols.labels.names ∨ ∃ l ∈ ls, ∃ u ∈ l.body, u.lexeme = .label name := by
  have hpairs : ∀ bs : Bindings, bs.names = bs.pairs.map Prod.fst := fun bs => by
    simp [Bindings.names, Bindings.pairs]
  rw [hpairs, h.labels_eq hp, List.map_append, ← hpairs] at hn
  refine (List.mem_append.1 hn).imp_right fun hn => ?_
  obtain ⟨p, hmem, rfl⟩ := List.mem_map.1 hn
  obtain ⟨v, hv, hmem⟩ := List.mem_flatMap.1 hmem
  refine ⟨v.line, h.line_mem hv, ?_⟩
  cases hl : v.line.statement? with
  | none =>
    rw [Visit.labels_of_none hl] at hmem
    cases hmem
  | some st =>
    rw [Visit.labels_of_statement? hl, Option.mem_toList, Option.map_eq_some_iff] at hmem
    obtain ⟨⟨name, place⟩, hlabel, rfl⟩ := hmem
    obtain ⟨rest, hbody, hlexeme⟩ := Line.body_of_label hl hlabel
    exact ⟨place, by simp [hbody], hlexeme⟩

end Walked

namespace Session.Assembled

variable {z : Session} {source file : String} {base : Option Int} {r : State} {tokens : List Token}
  {symbols : Symbols} {s₁ s₂ : State}

private theorem symbols_eq_first (h : Assembled z source base file r tokens symbols s₁ s₂) :
    r.symbols = s₁.symbols := by
  have hapart := Line.split_apart (tokenize_index h.tokenized)
  rw [h.symbols_eq]
  exact (h.first.keeps rfl rfl hapart h.second).1

private theorem distinct (h : Assembled z source base file r tokens symbols s₁ s₂) : r.symbols.Distinct := by
  rw [h.symbols_eq_first]
  exact h.first.continues.distinct (symbols_of_seed h.seeded).2

/-- If the constants that are defined beforehand have the names of symbols, all names in the tables are words. -/
theorem isWord_of_mem (h : Assembled z source base file r tokens symbols s₁ s₂)
    (hnames : ∀ p ∈ z.defines, IsName (Text.lower p.1)) :
    ∀ name ∈ r.symbols.names, IsWord name := by
  have hb : ∀ l ∈ Line.split tokens, Precede l.body l.stop := fun l hl =>
    Line.index_lt_stop (tokenize_index h.tokenized) hl
  have hseeded := (symbols_of_seed h.seeded).1
  intro name hn
  rw [h.symbols_eq_first] at hn
  rcases List.mem_append.1 hn with hn | hn
  · rcases h.first.constant_cases rfl hb hn with hn | ⟨l, hl, hn⟩
    · have hgiven : ∃ p ∈ z.defines, Text.lower p.1 = name := by
        have hstart : name ∈ symbols.constants.names := hn
        simpa [hseeded, Symbols.predefined, Bindings.names] using hstart
      obtain ⟨p, hp, rfl⟩ := hgiven
      obtain ⟨c, cs, -, hscan⟩ := hnames p hp
      exact isWord_of_scan hscan (.inl rfl)
    · obtain ⟨t, ht, hname⟩ := List.mem_filterMap.1 hn
      have hlexeme : t.lexeme = .identifier name := by
        unfold Token.identifier? at hname
        split at hname
        · next hl =>
          cases hname
          exact hl
        · cases hname
      exact isWord_of_tokenize h.tokenized (Line.body_subset hl t ht) (.inl hlexeme)
  · rcases h.first.label_cases rfl hn with hn | ⟨l, hl, t, ht, hlexeme⟩
    · have hstart : name ∈ symbols.labels.names := hn
      rw [hseeded] at hstart
      cases hstart
    · exact isWord_of_tokenize h.tokenized (Line.body_subset hl t ht) (.inr hlexeme)

end Session.Assembled

/-! ### Values -/

private theorem formatValue_toList (n : Int) :
    ∃ cs, Spells cs n.natAbs ∧ (formatValue n).toList = if n < 0 then '-' :: cs else cs := by
  refine ⟨_, spells_paddedHex 4 n.natAbs, ?_⟩
  rw [formatValue, String.toList_ofList]

/-- A value is read back, whatever its size and its sign. -/
private theorem parse_formatValue (n : Int) : Numeral.parse (formatValue n) = .ok n := by
  obtain ⟨cs, hspells, htext⟩ := formatValue_toList n
  obtain ⟨hplain, -, hminus⟩ := hspells.parse_eq (List.forall_mem_nil _) (List.forall_mem_nil _)
  rw [← String.ofList_toList (s := formatValue n), htext]
  split
  · have habs : (-n.natAbs : Int) = n := by omega
    rwa [List.nil_append, List.append_nil, habs] at hminus
  · have habs : (n.natAbs : Int) = n := by omega
    rwa [List.nil_append, List.append_nil, habs] at hplain

private theorem isBlank_formatValue (n : Int) : ∀ c ∈ (formatValue n).toList, Text.isBlank c = false := by
  obtain ⟨cs, hspells, htext⟩ := formatValue_toList n
  obtain ⟨-, hplain⟩ := hspells.plain
  have hcs : ∀ c ∈ cs, Text.isBlank c = false := fun c hc => (hplain c hc).1
  rw [htext]
  split
  · exact List.forall_mem_cons.2 ⟨by decide, hcs⟩
  · exact hcs

/-! ### Lines -/

/-- The text in front of the only blank of a line and the text behind it. -/
def Text.halves? (line : List Char) : Option (String × String) :=
  match line.span (· ≠ ' ') with
  | (before, _ :: behind) => if ' ' ∈ behind then none else some (String.ofList before, String.ofList behind)
  | (_, []) => none

/-- The lines of a symbol file that are no comments. -/
def symbolLines (text : String) : List (List Char) :=
  (Text.lines text.toList).filter fun line => line.head? ≠ some '#'

/-- Read a line of a symbol file. -/
def readSymbol? (line : List Char) : Option (String × Int) :=
  (Text.halves? line).bind fun p => (Numeral.parse p.2).toOption.map fun n => (p.1, n)

/-- The line of a symbol file for a symbol. -/
def entryLine (p : String × Int) : List Char :=
  p.1.toList ++ ' ' :: (formatValue p.2).toList

section Entry

variable {p : String × Int}

private theorem isBlank_of_mem_entryLine (h : IsWord p.1) {c : Char} (hc : c ∈ entryLine p) :
    c = ' ' ∨ Text.isBlank c = false := by
  rcases List.mem_append.1 hc with hc | hc
  · exact .inr (h.isBlank_eq c hc)
  · rcases List.mem_cons.1 hc with rfl | hc
    · exact .inl rfl
    · exact .inr (isBlank_formatValue p.2 c hc)

private theorem isSeparator_of_mem_entryLine (h : IsWord p.1) : ∀ c ∈ entryLine p, Text.isSeparator c = false := by
  intro c hc
  rcases isBlank_of_mem_entryLine h hc with rfl | hc
  · decide
  · exact Text.isSeparator_of_not_isBlank hc

private theorem head?_entryLine (h : IsWord p.1) : (entryLine p).head? ≠ some '#' := by
  obtain ⟨c, cs, hcs⟩ := List.exists_cons_of_ne_nil h.toList_ne_nil
  rw [entryLine, hcs, List.cons_append, List.head?_cons]
  rintro ⟨⟩
  exact h.notMem (by decide : isWordChar '#' = false) (hcs ▸ List.mem_cons_self ..)

/-- A line is cut between the name and the value. -/
private theorem halves?_entryLine (h : IsWord p.1) : Text.halves? (entryLine p) = some (p.1, formatValue p.2) := by
  have hname : ∀ c ∈ p.1.toList, decide (c ≠ ' ') = true := by
    intro c hc
    refine decide_eq_true fun hblank => ?_
    exact h.notMem (by decide : isWordChar ' ' = false) (hblank ▸ hc)
  have hvalue : ' ' ∉ (formatValue p.2).toList := by
    intro hc
    have := isBlank_formatValue p.2 ' ' hc
    revert this
    decide
  obtain ⟨htake, hdrop⟩ := takeWhile_append_of_avoids hname
    (avoids_cons.2 (by decide) : Avoids (fun c => decide (c ≠ ' ')) (' ' :: (formatValue p.2).toList))
  rw [Text.halves?, entryLine, List.span_eq_takeWhile_dropWhile, htake, hdrop]
  simp only [hvalue, if_false, String.ofList_toList]

theorem readSymbol?_entryLine (h : IsWord p.1) : readSymbol? (entryLine p) = some p := by
  rw [readSymbol?, halves?_entryLine h, Option.bind_some, parse_formatValue]
  rfl

/-- A definition with the name and the value of a line defines the symbol. -/
private theorem parse_definition (h : IsWord p.1) : Definition.parse (p.1 ++ "=" ++ formatValue p.2) = .ok p := by
  have hname : ∀ c ∈ p.1.toList, decide (c ≠ '=') = true := by
    intro c hc
    refine decide_eq_true fun hequal => ?_
    exact h.notMem (by decide : isWordChar '=' = false) (hequal ▸ hc)
  have htext : (p.1 ++ "=" ++ formatValue p.2).toList = p.1.toList ++ '=' :: (formatValue p.2).toList := by
    simp
  obtain ⟨htake, hdrop⟩ := takeWhile_append_of_avoids hname
    (avoids_cons.2 (by decide) : Avoids (fun c => decide (c ≠ '=')) ('=' :: (formatValue p.2).toList))
  have hstrip : Text.strip p.1.toList = p.1.toList :=
    Text.trimWhile_of_bare (Numeral.bare_of_digits h.toList_ne_nil h.isBlank_eq)
  have hvalue : Text.strip (formatValue p.2).toList ≠ [] := by
    obtain ⟨cs, hspells, hcs⟩ := formatValue_toList p.2
    have hne : (formatValue p.2).toList ≠ [] := by
      rw [hcs]
      split
      · simp
      · exact hspells.plain.1
    rw [Text.strip, Text.trimWhile_of_bare (Numeral.bare_of_digits hne (isBlank_formatValue p.2))]
    exact hne
  unfold Definition.parse
  rw [htext, List.span_eq_takeWhile_dropWhile, htake, hdrop]
  simp only [List.tail_cons, hstrip, String.ofList_toList, h.lower_eq, h.nonempty, hvalue, if_false, parse_formatValue]

end Entry

/-! ### Files -/

private theorem Text.lines_fed {ls : List (List Char)} (h : ∀ l ∈ ls, ∀ c ∈ l, isSeparator c = false) :
    lines (fed ls) = ls := by
  induction ls with
  | nil => rfl
  | cons l ls ih =>
    obtain ⟨hl, hls⟩ := List.forall_mem_cons.1 h
    have hreturn : dropReturn l = l := by
      rw [dropReturn, if_neg]
      intro hlast
      cases hl '\r' (List.mem_of_getLast? hlast)
    have hplain : Plain l := by
      rw [Plain, hreturn]
      exact hl
    rw [fed_cons, lines_append_feed, ih hls, lines_of_plain hplain (.inr rfl) (by simp), hreturn]
    rfl

namespace Symbols

variable {symbols : Symbols}

private theorem toList_file (symbols : Symbols) :
    symbols.file.toList =
      Text.fed ("# Symbol table".toList :: "# Generated by asm6809".toList :: symbols.sorted.map entryLine) := by
  simp [file, Text.fed, entryLine, String.toList_join, List.flatMap_map]

/-- The lines of a symbol file are those of the symbols, in the order of their names. -/
private theorem symbolLines_file (h : ∀ p ∈ symbols.sorted, IsWord p.1) :
    symbolLines symbols.file = symbols.sorted.map entryLine := by
  have hseparator : ∀ l ∈ "# Symbol table".toList :: "# Generated by asm6809".toList :: symbols.sorted.map entryLine,
      ∀ c ∈ l, Text.isSeparator c = false := by
    have hheader : ∀ text : String, (text.toList.all fun c => !Text.isSeparator c) = true →
        ∀ c ∈ text.toList, Text.isSeparator c = false := by
      intro text htext c hc
      simpa using List.all_eq_true.1 htext c hc
    refine List.forall_mem_cons.2 ⟨hheader _ (by decide), List.forall_mem_cons.2 ⟨hheader _ (by decide), ?_⟩⟩
    intro l hl
    obtain ⟨p, hp, rfl⟩ := List.mem_map.1 hl
    exact isSeparator_of_mem_entryLine (h p hp)
  have hentries : ∀ l ∈ symbols.sorted.map entryLine, decide (l.head? ≠ some '#') = true := by
    intro l hl
    obtain ⟨p, hp, rfl⟩ := List.mem_map.1 hl
    exact decide_eq_true (head?_entryLine (h p hp))
  rw [symbolLines, toList_file, Text.lines_fed hseparator, List.filter_cons_of_neg (by decide),
    List.filter_cons_of_neg (by decide), List.filter_eq_self.2 hentries]

private theorem keys_merged {name : String} : name ∈ symbols.merged.map Prod.fst ↔ name ∈ symbols.names := by
  simp [merged, mem_keys_assignAll, names, Bindings.names, Bindings.pairs, or_comm]

private theorem nodup_merged (h : symbols.Distinct) : (symbols.merged.map Prod.fst).Nodup := by
  have hlabels : symbols.labels.pairs.map Prod.fst = symbols.labels.names := by
    simp [Bindings.names, Bindings.pairs]
  exact nodup_keys_assignAll (hlabels ▸ h.labels)

private theorem sorted_perm (symbols : Symbols) : symbols.sorted.Perm symbols.merged :=
  List.mergeSort_perm _ _

/-- No two symbols have one name, so each comes before the next one. -/
theorem sorted_pairwise (h : symbols.Distinct) : symbols.sorted.Pairwise fun p q => p.1 < q.1 := by
  have hle : symbols.sorted.Pairwise fun p q => p.1 ≤ q.1 := by
    have hsorted : symbols.sorted.Pairwise fun p q => (!decide (q.1 < p.1)) = true := by
      refine List.pairwise_mergeSort ?_ ?_ symbols.merged
      · intro p q r hpq hqr
        simp only [Bool.not_eq_true', decide_eq_false_iff_not, String.not_lt] at hpq hqr ⊢
        exact String.le_trans hpq hqr
      · intro p q
        simp only [Bool.or_eq_true, Bool.not_eq_true', decide_eq_false_iff_not, String.not_lt]
        exact String.le_total p.1 q.1
    refine hsorted.imp fun {p q} hpq => ?_
    simp only [Bool.not_eq_true', decide_eq_false_iff_not, String.not_lt] at hpq
    exact hpq
  have hne : symbols.sorted.Pairwise fun p q => p.1 ≠ q.1 :=
    List.pairwise_map.1 ((symbols.sorted_perm.map Prod.fst).nodup_iff.2 (nodup_merged h))
  refine hle.imp₂ (fun p q hpq hdiffer => ?_) hne
  exact String.not_le.1 fun hqp => hdiffer (String.le_antisymm hpq hqp)

end Symbols

private theorem lookup_cons_of_ne {q : String × Int} {name : String} (h : name ≠ q.1) (ps : List (String × Int)) :
    (q :: ps).lookup name = ps.lookup name := by
  have hdiffer : (name == q.1) = false := by simpa using h
  rw [List.lookup_cons, hdiffer]

/-- After assignments a name has the value that was assigned last. -/
theorem lookup_assignAll (ps news : List (String × Int)) (name : String) :
    (assignAll ps news).lookup name = (news.reverse.lookup name).or (ps.lookup name) := by
  induction news generalizing ps with
  | nil => rfl
  | cons q news ih =>
    rw [show assignAll ps (q :: news) = assignAll (assign q.1 q.2 ps) news from rfl, ih, List.reverse_cons,
      List.lookup_append, Option.or_assoc]
    congr 1
    by_cases hname : name = q.1
    · rw [hname, lookup_assign_self, List.lookup_cons_self, Option.some_or]
    · rw [lookup_assign_of_ne hname, lookup_cons_of_ne hname]
      rfl

private theorem lookup_reverse {ps : List (String × Int)} (h : (ps.map Prod.fst).Nodup) (name : String) :
    ps.reverse.lookup name = ps.lookup name := by
  induction ps with
  | nil => rfl
  | cons q ps ih =>
    obtain ⟨hq, hps⟩ := List.nodup_cons.1 h
    rw [List.reverse_cons, List.lookup_append, ih hps]
    by_cases hname : name = q.1
    · have hnone : ps.lookup name = none := by
        refine List.lookup_eq_none_iff.2 fun p hp => bne_iff_ne.2 fun hkey => hq ?_
        exact List.mem_map.2 ⟨p, hp, hkey.symm.trans hname⟩
      rw [hnone, Option.none_or, hname, List.lookup_cons_self, List.lookup_cons_self]
    · rw [lookup_cons_of_ne hname, lookup_cons_of_ne hname]
      exact Option.or_none

/-- A symbol file can be read back.  If the names of the constants that are defined beforehand could stand in a source,
each line of the file that is no comment has one blank, the text in front of it is a name and the text behind it its
value.  The names are in strict order and they are those of all symbols, where a constant hides a label of its name.
The two texts with an equal sign between them define the symbol again. -/
theorem symbol_files_are_read_back {z z' : Session} {source file : String} {base : Option Int} {log : List Report}
    {code : List UInt8} (h : z.assemble source base file = (z', log, .ok code))
    (hnames : ∀ p ∈ z.defines, IsName (Text.lower p.1)) :
    ∃ (text : String) (entries : List (String × Int)),
      z'.symbolFile = .ok text ∧ (symbolLines text).map readSymbol? = entries.map some ∧
      entries.Pairwise (fun p q => p.1 < q.1) ∧ entries.Perm z'.symbols ∧
      (∀ name, z'.symbols.lookup name = (z'.constants.lookup name).or (z'.labels.lookup name)) ∧
      ∀ line ∈ symbolLines text, ∃ name value n, Text.halves? line = some (name, value) ∧
        readSymbol? line = some (name, n) ∧ Definition.parse (name ++ "=" ++ value) = .ok (name, n) := by
  obtain ⟨r, tokens, symbols, s₁, s₂, hlast, -, hrun⟩ := Session.assemble_eq_ok h
  have hword : ∀ p ∈ r.state.symbols.sorted, IsWord p.1 := by
    intro p hp
    refine hrun.isWord_of_mem hnames p.1 (Symbols.keys_merged.1 ?_)
    exact List.mem_map_of_mem (r.state.symbols.sorted_perm.mem_iff.1 hp)
  have hlines := Symbols.symbolLines_file hword
  refine ⟨r.state.symbols.file, r.state.symbols.sorted, ?_, ?_, Symbols.sorted_pairwise hrun.distinct, ?_, ?_, ?_⟩
  · simp [Session.symbolFile, hlast]
  · rw [hlines, List.map_map]
    exact List.map_congr_left fun p hp => readSymbol?_entryLine (hword p hp)
  · simpa [Session.symbols, hlast] using r.state.symbols.sorted_perm
  · intro name
    have hconstants : (r.state.symbols.constants.pairs.map Prod.fst).Nodup := by
      simpa [Bindings.pairs, Bindings.names, Function.comp_def] using hrun.distinct.constants
    have hlookup := lookup_assignAll r.state.symbols.labels.pairs r.state.symbols.constants.pairs name
    rw [lookup_reverse hconstants] at hlookup
    simpa [Session.symbols, Session.constants, Session.labels, hlast, Symbols.merged] using hlookup
  · intro line hline
    rw [hlines] at hline
    obtain ⟨p, hp, rfl⟩ := List.mem_map.1 hline
    exact ⟨p.1, formatValue p.2, p.2, halves?_entryLine (hword p hp), readSymbol?_entryLine (hword p hp),
      parse_definition (hword p hp)⟩

/-- A source in which a constant hides a label. -/
private def hiddenLabel : String :=
  "p: nop\nq: rts\np = -big\n"

theorem symbol_files_are_read_back_hidden_label :
    ∃ (z' : Session) (log : List Report) (text : String) (entries : List (String × Int)),
      Session.assemble { defines := [("Big", 0x12345)] } hiddenLabel none "main.asm" = (z', log, .ok [0x12, 0x39]) ∧
      (∀ p ∈ [("Big", (0x12345 : Int))], IsName (Text.lower p.1)) ∧
      z'.symbols = [("p", -0x12345), ("q", 0x4001), ("big", 0x12345)] ∧ z'.symbolFile = .ok text ∧
      (symbolLines text).map readSymbol? = entries.map some ∧ entries.Pairwise (fun p q => p.1 < q.1) ∧
      entries.Perm z'.symbols := by
  let z : Session := { defines := [("Big", 0x12345)] }
  have hresults : (z.assemble hiddenLabel none "main.asm").2.2.toOption = some [0x12, 0x39] ∧
      (z.assemble hiddenLabel none "main.asm").1.symbols = [("p", -0x12345), ("q", 0x4001), ("big", 0x12345)] ∧
      Text.lower "Big" = "big" := by
    decide +kernel
  obtain ⟨hcode, hsymbols, hlower⟩ := hresults
  have hnames : ∀ p ∈ z.defines, IsName (Text.lower p.1) := by
    refine List.forall_mem_singleton.2 ?_
    rw [hlower]
    exact ⟨'b', ['i', 'g'], by decide, rfl⟩
  have hrun := Session.assemble_eq hcode
  obtain ⟨text, entries, htext, hread, horder, hperm, -⟩ := symbol_files_are_read_back hrun hnames
  exact ⟨_, _, text, entries, hrun, hnames, hsymbols, htext, hread, horder, hperm⟩

end Mc6809
