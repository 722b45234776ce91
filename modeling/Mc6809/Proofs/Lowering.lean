import Mc6809.Proofs.Lexing.Case
import Mc6809.Text.Letter

/-!
# Names in small letters

A name in small letters stays as it is when it is folded again (`Text.lower_lower`): the small letters of the tables
are apart from the capitals, so that no letter is folded twice.
-/

namespace Mc6809.Text

/-- A character that is no capital. -/
structure Small (c : Char) : Prop where
  ne_sigma : c ≠ 'Σ'
  lowerChar_eq : lowerChar c = [c]

private theorem lowerFrom_of_small {cs : List Char} (h : ∀ c ∈ cs, Small c) (before : List Char) :
    lowerFrom before cs = cs := by
  induction cs generalizing before with
  | nil => rfl
  | cons c cs ih =>
    obtain ⟨hsigma, hc⟩ := h c (List.mem_cons_self ..)
    rw [lowerFrom, if_neg hsigma, hc, ih fun d hd => h d (List.mem_cons_of_mem _ hd)]
    rfl

/-- A name without capitals stays as it is. -/
theorem lower_of_small {s : String} (h : ∀ c ∈ s.toList, Small c) : lower s = s := by
  rw [lower, lowerFrom_of_small h, String.ofList_toList]

/-! ### ASCII letters -/

theorem small_of_toLower {c : Char} (hc : c.toNat < 0x80) (h : c.toLower = c) : Small c := by
  constructor
  · rintro rfl
    revert hc
    decide
  · unfold lowerChar
    dsimp only
    rw [if_pos hc, h]

private theorem toNat_toLower_lt {c : Char} (hc : c.toNat < 0x80) : c.toLower.toNat < 0x80 := by
  by_cases h : c ∈ Lexer.capitalLetters
  · have hall : (Lexer.capitalLetters.all fun d => d.toLower.toNat < 0x80) = true := by decide
    exact of_decide_eq_true (List.all_eq_true.1 hall c h)
  · rwa [Lexer.toLower_of_notMem h]

/-! ### Runs of capitals -/

/-- Whether the small letters of a run are apart from the capitals of another one. -/
def CapitalRun.apart (r r' : CapitalRun) : Bool :=
  r.small + (r.last - r.first) < r'.first || r'.last < r.small ||
    r'.step = 2 && (r.step = 2 || r.first = r.last) && (r.small + r'.first) % 2 = 1

/-- The run of the dotted capital I, which has no small letter of one character. -/
def dotted : CapitalRun :=
  ⟨0x130, 0x130, 1, 0x130⟩

set_option maxRecDepth 10000 in
private theorem all_apart : (capitals.all fun r => 0x5A < r.small && (dotted :: capitals).all r.apart) = true := by
  decide +kernel

private theorem capitals_apart {r : CapitalRun} (hr : r ∈ capitals) :
    0x5A < r.small ∧ ∀ r' ∈ dotted :: capitals, r.apart r' = true := by
  have h := List.all_eq_true.1 all_apart r hr
  rw [Bool.and_eq_true, decide_eq_true_eq, List.all_eq_true] at h
  exact h

private theorem CapitalRun.not_has_of_apart {r r' : CapitalRun} {n : Nat} (h : r.apart r' = true)
    (hn : r.has n = true) :
    r'.has (r.small + (n - r.first)) = false := by
  simp only [apart, has, Bool.or_eq_true, Bool.and_eq_true, decide_eq_true_eq] at h hn
  refine Bool.eq_false_iff.2 fun hm => ?_
  simp only [has, Bool.and_eq_true, decide_eq_true_eq] at hm
  rcases h with (h | h) | ⟨⟨hstep', hstep⟩, hodd⟩
  · omega
  · omega
  · rw [hstep'] at hm
    rcases hstep with hstep | hstep
    · rw [hstep] at hn
      omega
    · omega

private theorem small_of_run {r : CapitalRun} (hr : r ∈ capitals) {n : Nat} (hn : r.has n = true) :
    Small (Char.ofNat (r.small + (n - r.first))) := by
  obtain ⟨hlow, hapart⟩ := capitals_apart hr
  have hnot : ∀ r' ∈ dotted :: capitals, r'.has (r.small + (n - r.first)) = false := fun r' hr' =>
    CapitalRun.not_has_of_apart (hapart r' hr') hn
  have hm : 0x5A < r.small + (n - r.first) := by omega
  generalize r.small + (n - r.first) = m at hnot hm
  by_cases hvalid : m.isValidChar
  · have htoNat : (Char.ofNat m).toNat = m := by
      unfold Char.ofNat
      rw [dif_pos hvalid]
      rfl
    have hsigma : m ≠ 0x3A3 := by
      rintro rfl
      cases hnot ⟨0x3A3, 0x3AB, 1, 0x3C3⟩ (by decide +kernel)
    have hdotted : m ≠ 0x130 := by
      rintro rfl
      cases hnot dotted (List.mem_cons_self ..)
    have hnone : capitals.find? (·.has m) = none := by
      refine List.find?_eq_none.2 fun r' hr' => ?_
      rw [hnot r' (List.mem_cons_of_mem _ hr')]
      exact Bool.false_ne_true
    have hlower : (Char.ofNat m).toLower = Char.ofNat m := by
      refine Lexer.toLower_of_notMem fun hmem => ?_
      have hall : (Lexer.capitalLetters.all fun d => d.toNat ≤ 0x5A) = true := by decide
      have := of_decide_eq_true (List.all_eq_true.1 hall _ hmem)
      omega
    constructor
    · intro h
      rw [h] at htoNat
      exact hsigma htoNat.symm
    · unfold lowerChar
      dsimp only
      rw [htoNat, if_neg hdotted, hnone, hlower, ite_self]
  · -- There is no such character, and the zero character stands for it.
    have hzero : Char.ofNat m = '\x00' := by
      unfold Char.ofNat
      rw [dif_neg hvalid]
      rfl
    rw [hzero]
    exact small_of_toLower (by decide) (by decide)

/-- What a character is folded to has no capitals. -/
private theorem small_of_mem_lowerChar {c d : Char} (hc : c ≠ 'Σ') (h : d ∈ lowerChar c) : Small d := by
  unfold lowerChar at h
  dsimp only at h
  split at h
  · next hascii =>
    rw [List.mem_singleton.1 h]
    exact small_of_toLower (toNat_toLower_lt hascii) (Lexer.caseless_toLower c)
  · next hascii =>
    split at h
    · have hdot : Small 'i' ∧ Small '\u0307' := ⟨⟨by decide, by decide +kernel⟩, ⟨by decide, by decide +kernel⟩⟩
      simp only [List.mem_cons, List.not_mem_nil, or_false] at h
      rcases h with rfl | rfl
      · exact hdot.1
      · exact hdot.2
    · next hdotted =>
      split at h
      · next r hr =>
        have hhas : r.has c.toNat = true := by simpa using List.find?_some hr
        rw [List.mem_singleton.1 h]
        exact small_of_run (List.mem_of_find?_eq_some hr) hhas
      · next hr =>
        rw [List.mem_singleton.1 h]
        refine ⟨hc, ?_⟩
        unfold lowerChar
        dsimp only
        rw [if_neg hascii, if_neg hdotted, hr]

private theorem small_of_mem_lowerFrom {before cs : List Char} {d : Char} (h : d ∈ lowerFrom before cs) : Small d := by
  induction cs generalizing before with
  | nil => cases h
  | cons c cs ih =>
    rw [lowerFrom, List.mem_append] at h
    rcases h with h | h
    · split at h
      · have hsigmas : Small 'ς' ∧ Small 'σ' := ⟨⟨by decide, by decide +kernel⟩, ⟨by decide, by decide +kernel⟩⟩
        rw [List.mem_singleton.1 h, lowerSigma]
        split
        · exact hsigmas.1
        · exact hsigmas.2
      · next hc => exact small_of_mem_lowerChar hc h
    · exact ih h

theorem lower_lower (s : String) : lower (lower s) = lower s := by
  refine lower_of_small fun c hc => ?_
  rw [lower, String.toList_ofList] at hc
  exact small_of_mem_lowerFrom hc

end Mc6809.Text
