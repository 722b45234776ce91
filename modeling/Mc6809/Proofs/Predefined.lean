import Mc6809.Proofs.Lowering
import Mc6809.Proofs.WriteOnce

/-!
# Constants defined beforehand

A session is given constants when it is configured, when it is created and by later requests.  Names given in the last
two ways are folded at once and configured ones only when a run starts, so that the value given last counts unless
a configured name meets another spelling of itself (`Unambiguous`).  Then every run is refused before its source is
read (`last_value_counts`).
-/

namespace Mc6809

/-! ### Pairs with names in any case -/

/-- The value of the first pair with a name, in whatever case the name is written there. -/
def valueOf (ps : List (String × Int)) (name : String) : Option Int :=
  (ps.find? fun p => Text.lower p.1 = name).map Prod.snd

/-- The value that was given to a name last. -/
def lastValue? (given : List (String × Int)) (name : String) : Option Int :=
  valueOf given.reverse name

/-- Pairs with names in small letters. -/
def folded (ps : List (String × Int)) : List (String × Int) :=
  ps.map fun p => (Text.lower p.1, p.2)

private theorem valueOf_append (ps qs : List (String × Int)) (name : String) :
    valueOf (ps ++ qs) name = (valueOf ps name).or (valueOf qs name) := by
  rw [valueOf, List.find?_append]
  cases h : ps.find? fun p => Text.lower p.1 = name <;> simp [valueOf, h]

private theorem valueOf_cons (p : String × Int) (ps : List (String × Int)) (name : String) :
    valueOf (p :: ps) name = if Text.lower p.1 = name then some p.2 else valueOf ps name := by
  by_cases h : Text.lower p.1 = name <;> simp [valueOf, h]

private theorem valueOf_folded (ps : List (String × Int)) (name : String) :
    valueOf (folded ps) name = valueOf ps name := by
  induction ps with
  | nil => rfl
  | cons p ps ih =>
    rw [folded, List.map_cons, valueOf_cons, valueOf_cons, Text.lower_lower]
    rw [← ih, folded]

/-- It makes no difference whether names that are given later are folded. -/
private theorem lastValue?_folded (ps qs : List (String × Int)) (name : String) :
    lastValue? (ps ++ folded qs) name = lastValue? (ps ++ qs) name := by
  have hreverse : (folded qs).reverse = folded qs.reverse := List.map_reverse.symm
  rw [lastValue?, lastValue?, List.reverse_append, List.reverse_append, valueOf_append, valueOf_append, hreverse,
    valueOf_folded]

/-! ### Tables of pairs -/

section Assign

variable {ps news : List (String × Int)} {key : String} {value : Int}

private theorem keys_assign (key : String) (value : Int) (ps : List (String × Int)) :
    (assign key value ps).map Prod.fst =
      if key ∈ ps.map Prod.fst then ps.map Prod.fst else ps.map Prod.fst ++ [key] := by
  induction ps with
  | nil => rfl
  | cons p ps ih =>
    unfold assign
    by_cases hp : p.1 = key
    · simp [hp]
    · have hne : key ≠ p.1 := Ne.symm hp
      rw [if_neg hp, List.map_cons, List.map_cons, ih]
      by_cases hk : key ∈ ps.map Prod.fst
      · rw [if_pos hk, if_pos (List.mem_cons_of_mem _ hk)]
      · rw [if_neg hk, if_neg (by simpa [hne] using hk), List.cons_append]

private theorem mem_keys_assign {k : String} :
    k ∈ (assign key value ps).map Prod.fst ↔ k = key ∨ k ∈ ps.map Prod.fst := by
  rw [keys_assign]
  split
  · next h =>
    constructor
    · exact .inr
    · rintro (rfl | hk)
      · exact h
      · exact hk
  · rw [List.mem_append, List.mem_singleton, or_comm]

private theorem nodup_keys_assign (h : (ps.map Prod.fst).Nodup) : ((assign key value ps).map Prod.fst).Nodup := by
  rw [keys_assign]
  split
  · exact h
  · next hk =>
    refine List.nodup_append.2 ⟨h, by simp, ?_⟩
    intro a ha b hb hab
    rw [hab, List.mem_singleton.1 hb] at ha
    exact hk ha

private theorem assign_of_notMem (h : key ∉ ps.map Prod.fst) : assign key value ps = ps ++ [(key, value)] := by
  induction ps with
  | nil => rfl
  | cons p ps ih =>
    rw [List.map_cons, List.mem_cons, not_or] at h
    rw [assign, if_neg (Ne.symm h.1), ih h.2, List.cons_append]

/-- Assignments of different names give the table itself. -/
theorem assignAll_of_nodup (h : (ps.map Prod.fst).Nodup) : assignAll [] ps = ps := by
  suffices hfront : ∀ front : List (String × Int), ((front ++ ps).map Prod.fst).Nodup →
      assignAll front ps = front ++ ps from hfront [] h
  clear h
  induction ps with
  | nil => exact fun front _ => (List.append_nil front).symm
  | cons p ps ih =>
    intro front h
    have hnew : p.1 ∉ front.map Prod.fst := fun hmem => by
      rw [List.map_append, List.nodup_append] at h
      exact h.2.2 _ hmem _ (List.mem_cons_self ..) rfl
    rw [List.append_cons] at h ⊢
    rw [← ih _ h, ← assign_of_notMem hnew]
    rfl

/-- Names that differ when they are written in different ways. -/
def Apart (ks ks' : List String) : Prop :=
  ∀ k ∈ ks, ∀ k' ∈ ks', Text.lower k = Text.lower k' → k = k'

private theorem valueOf_assign (h : Apart (ps.map Prod.fst) [key]) (name : String) :
    valueOf (assign key value ps) name = if Text.lower key = name then some value else valueOf ps name := by
  induction ps with
  | nil => exact valueOf_cons (key, value) [] name
  | cons p ps ih =>
    have hrest : Apart (ps.map Prod.fst) [key] := fun k hk => h k (List.mem_cons_of_mem _ hk)
    unfold assign
    by_cases hp : p.1 = key
    · rw [if_pos hp, valueOf_cons, valueOf_cons, hp]
      split <;> rfl
    · have hlower : Text.lower p.1 ≠ Text.lower key := fun hl =>
        hp (h p.1 (List.mem_cons_self ..) key (List.mem_singleton_self _) hl)
      rw [if_neg hp, valueOf_cons, valueOf_cons, ih hrest]
      by_cases hname : Text.lower p.1 = name
      · rw [if_pos hname, if_neg fun hk => hlower (hname.trans hk.symm), if_pos hname]
      · rw [if_neg hname, if_neg hname]

theorem mem_keys_assignAll {k : String} :
    k ∈ (assignAll ps news).map Prod.fst ↔ k ∈ ps.map Prod.fst ∨ k ∈ news.map Prod.fst := by
  induction news generalizing ps with
  | nil => simp [assignAll]
  | cons q news ih =>
    have hstep := @ih (assign q.1 q.2 ps)
    rw [mem_keys_assign] at hstep
    rw [show assignAll ps (q :: news) = assignAll (assign q.1 q.2 ps) news from rfl, hstep, List.map_cons,
      List.mem_cons]
    constructor
    · rintro ((hk | hk) | hk)
      · exact .inr (.inl hk)
      · exact .inl hk
      · exact .inr (.inr hk)
    · rintro (hk | hk | hk)
      · exact .inl (.inr hk)
      · exact .inl (.inl hk)
      · exact .inr hk

theorem nodup_keys_assignAll (h : (ps.map Prod.fst).Nodup) : ((assignAll ps news).map Prod.fst).Nodup := by
  induction news generalizing ps with
  | nil => exact h
  | cons q news ih => exact ih (nodup_keys_assign h)

/-- After assignments a name has the value that was assigned last, if no name is written in two ways. -/
private theorem valueOf_assignAll (h : Apart (ps.map Prod.fst ++ news.map Prod.fst) (news.map Prod.fst))
    (name : String) :
    valueOf (assignAll ps news) name = (lastValue? news name).or (valueOf ps name) := by
  induction news generalizing ps with
  | nil => rfl
  | cons q news ih =>
    have hfirst : Apart (ps.map Prod.fst) [q.1] := by
      intro k hk k' hk'
      rw [List.mem_singleton.1 hk']
      exact h k (List.mem_append_left _ hk) q.1 (List.mem_cons_self ..)
    have hrest : Apart ((assign q.1 q.2 ps).map Prod.fst ++ news.map Prod.fst) (news.map Prod.fst) := by
      intro k hk k' hk'
      refine h k ?_ k' (List.mem_cons_of_mem _ hk')
      rw [List.mem_append, mem_keys_assign] at hk
      rw [List.mem_append, List.map_cons, List.mem_cons]
      rcases hk with (hk | hk) | hk
      · exact .inr (.inl hk)
      · exact .inl hk
      · exact .inr (.inr hk)
    have hlast : lastValue? (q :: news) name = (lastValue? news name).or (valueOf [q] name) := by
      rw [lastValue?, List.reverse_cons, valueOf_append, lastValue?]
    rw [show assignAll ps (q :: news) = assignAll (assign q.1 q.2 ps) news from rfl, ih hrest,
      valueOf_assign hfirst, hlast, valueOf_cons, Option.or_assoc]
    by_cases hq : Text.lower q.1 = name
    · rw [if_pos hq, if_pos hq]
      rfl
    · rw [if_neg hq, if_neg hq]
      rfl

end Assign

/-! ### The symbols that a run starts with -/

namespace Session

variable {defines : List (String × Int)}

/-- Names that stay different in small letters can all be defined. -/
theorem exists_seed (h : ((folded defines).map Prod.fst).Nodup) : ∃ symbols, seed defines = .ok symbols := by
  have hfirst : (Bindings.names (Symbols.constants {}) ++ (folded defines).map Prod.fst).Nodup := by
    simpa [Bindings.names] using h
  clear h
  unfold seed
  revert hfirst
  -- The empty tables are generalized to those that hold what comes before the rest of the list.
  generalize ({} : Symbols) = first
  induction defines generalizing first with
  | nil => exact fun _ => ⟨first, rfl⟩
  | cons p ps ih =>
    intro hfirst
    have hb : first.constants.binding? (Text.lower p.1) = none := by
      refine Classical.byContradiction fun hne => ?_
      exact (List.nodup_append.1 hfirst).2.2 _ (Bindings.mem_names_iff.2 hne) _ (List.mem_cons_self ..) rfl
    rw [List.foldlM_cons]
    simp only [Symbols.defineConstant, Bindings.define, hb, Except.map]
    refine ih _ ?_
    simpa [Bindings.names, folded] using hfirst

/-- A name that is given twice is refused without a place. -/
private theorem duplicate_of_seed {d : Diagnostic} (h : seed defines = .error d) :
    ∃ name, d = ⟨.duplicateSymbol name none, none, none⟩ := by
  have hfirst : ∀ b ∈ Symbols.constants {}, b.place = none := by simp
  unfold seed at h
  revert hfirst h
  generalize ({} : Symbols) = first
  induction defines generalizing first with
  | nil =>
    intro h _
    cases h
  | cons p ps ih =>
    intro h hfirst
    rw [List.foldlM_cons] at h
    rcases hb : first.constants.binding? (Text.lower p.1) with _ | old
    · simp only [Symbols.defineConstant, Bindings.define, hb, Except.map] at h
      refine ih _ h fun b hb => ?_
      rcases List.mem_append.1 hb with hb | hb
      · exact hfirst b hb
      · rw [List.mem_singleton.1 hb]
    · simp only [Symbols.defineConstant, Bindings.define, hb, Except.map] at h
      cases h
      exact ⟨_, by rw [hfirst old (List.mem_of_find?_eq_some hb)]⟩

/-- A session that is given constants in its configuration, when it is created and by requests after that. -/
def given (base : Int) (configured defines calls : List (String × Int)) : Session :=
  calls.foldl (fun z p => z.define p.1 p.2) (create base configured defines)

theorem given_eq (base : Int) (configured defines calls : List (String × Int)) :
    given base configured defines calls =
      { base, defines := assignAll [] (configured ++ folded (defines ++ calls)) } := by
  have hcalls : ∀ z : Session, calls.foldl (fun z p => z.define p.1 p.2) z =
      { z with defines := assignAll z.defines (folded calls) } := by
    intro z
    induction calls generalizing z with
    | nil => rfl
    | cons p calls ih => exact ih (z.define p.1 p.2)
  rw [given, hcalls]
  simp only [create, folded, assignAll, List.map_append, List.foldl_append]

end Session

/-- Configured names of which no two differ in case only, and which are in small letters if they are given again. -/
def Unambiguous (configured later : List (String × Int)) : Prop :=
  (∀ p ∈ configured, ∀ q ∈ configured, Text.lower p.1 = Text.lower q.1 → p.1 = q.1) ∧
    ∀ p ∈ configured, ∀ q ∈ later, Text.lower p.1 = Text.lower q.1 → Text.lower p.1 = p.1

instance (configured later : List (String × Int)) : Decidable (Unambiguous configured later) :=
  inferInstanceAs (Decidable (_ ∧ _))

section Tables

variable {configured later : List (String × Int)}

/-- Unambiguous names are written in one way when the later ones have been folded. -/
private theorem unambiguous_iff : Unambiguous configured later ↔
    Apart ((configured ++ folded later).map Prod.fst) ((configured ++ folded later).map Prod.fst) := by
  have hmem : ∀ {k : String}, k ∈ (configured ++ folded later).map Prod.fst ↔
      (∃ p ∈ configured, p.1 = k) ∨ ∃ q ∈ later, Text.lower q.1 = k := by
    intro k
    simp [folded]
  constructor
  · rintro ⟨hconfigured, hlater⟩ k hk k' hk' h
    rcases hmem.1 hk with ⟨p, hp, rfl⟩ | ⟨q, hq, rfl⟩ <;> rcases hmem.1 hk' with ⟨p', hp', rfl⟩ | ⟨q', hq', rfl⟩
    · exact hconfigured p hp p' hp' h
    · rw [Text.lower_lower] at h
      rw [← h, hlater p hp q' hq' h]
    · rw [Text.lower_lower] at h
      rw [h, hlater p' hp' q hq h.symm]
    · rwa [Text.lower_lower, Text.lower_lower] at h
  · intro h
    constructor
    · intro p hp q hq
      exact h p.1 (hmem.2 (.inl ⟨p, hp, rfl⟩)) q.1 (hmem.2 (.inl ⟨q, hq, rfl⟩))
    · intro p hp q hq hl
      have := h p.1 (hmem.2 (.inl ⟨p, hp, rfl⟩)) (Text.lower q.1) (hmem.2 (.inr ⟨q, hq, rfl⟩))
      rw [Text.lower_lower] at this
      exact hl.trans (this hl).symm

private theorem value?_predefined_folded (ps : List (String × Int)) (name : String) :
    (Symbols.predefined (folded ps)).constants.value? name = valueOf ps name := by
  induction ps with
  | nil => rfl
  | cons p ps ih =>
    have hsplit : (Symbols.predefined (folded (p :: ps))).constants =
        [⟨Text.lower p.1, p.2, none⟩] ++ (Symbols.predefined (folded ps)).constants := rfl
    rw [hsplit, Bindings.value?_append, Bindings.value?_singleton, ih, valueOf_cons]
    split <;> rfl

/-- A table that is filled by assignments can be defined if and only if no name is written in two ways. -/
private theorem seed_assignAll {raw : List (String × Int)} :
    (∃ symbols, Session.seed (assignAll [] raw) = .ok symbols) ↔ Apart (raw.map Prod.fst) (raw.map Prod.fst) := by
  have hkeys : ∀ {k : String}, k ∈ (assignAll [] raw).map Prod.fst ↔ k ∈ raw.map Prod.fst := by
    intro k
    simp [mem_keys_assignAll]
  constructor
  · rintro ⟨symbols, hseed⟩ k hk k' hk' h
    obtain ⟨rfl, hdistinct⟩ := Session.symbols_of_seed hseed
    have hnames : ((assignAll [] raw).map fun p => Text.lower p.1).Nodup := by
      simpa [Symbols.predefined, Bindings.names, Function.comp_def] using hdistinct.constants
    obtain ⟨p, hp, rfl⟩ := List.mem_map.1 (hkeys.2 hk)
    obtain ⟨q, hq, rfl⟩ := List.mem_map.1 (hkeys.2 hk')
    obtain ⟨i, hi, rfl⟩ := List.getElem_of_mem hp
    obtain ⟨j, hj, rfl⟩ := List.getElem_of_mem hq
    have hi' : i < ((assignAll [] raw).map fun p => Text.lower p.1).length := by simpa using hi
    have hj' : j < ((assignAll [] raw).map fun p => Text.lower p.1).length := by simpa using hj
    have hget : ((assignAll [] raw).map fun p => Text.lower p.1)[i] =
        ((assignAll [] raw).map fun p => Text.lower p.1)[j] := by simpa using h
    simp only [(List.getElem_inj hnames).1 hget]
  · intro h
    refine Session.exists_seed ?_
    have hnodup : ((assignAll [] raw).map Prod.fst).Nodup := nodup_keys_assignAll List.nodup_nil
    rw [folded, List.map_map]
    refine List.pairwise_map.2 ((List.pairwise_map.1 hnodup).imp_of_mem fun {p q} hp hq hne hl => hne ?_)
    exact h p.1 (hkeys.1 (List.mem_map_of_mem hp)) q.1 (hkeys.1 (List.mem_map_of_mem hq)) hl

end Tables

/-- Constants count without regard to the case of their names and with the value given last, unless a configured name
meets another spelling of itself, which keeps every source from being read. -/
theorem last_value_counts (base : Int) (configured defines calls : List (String × Int)) :
    (Unambiguous configured (defines ++ calls) →
      ∃ symbols, Session.seed (Session.given base configured defines calls).defines = .ok symbols ∧
        symbols.labels = [] ∧
        (∀ name, symbols.constants.value? name = lastValue? (configured ++ defines ++ calls) name) ∧
        ∀ source start file,
          (∀ d, tokenize source file = .error d →
            ((Session.given base configured defines calls).assemble source start file).2.2 = .error (.refused d)) ∧
          ∀ tokens, tokenize source file = .ok tokens →
            ((Session.given base configured defines calls).assemble source start file).1.last =
              some ⟨(run { base := start.getD base, symbols } (Line.split tokens)).state, quotedLines source⟩) ∧
    (¬Unambiguous configured (defines ++ calls) →
      ∃ name, ∀ source start file,
        (Session.given base configured defines calls).assemble source start file =
          (Session.given base configured defines calls, [],
            .error (.refused ⟨.duplicateSymbol name none, none, none⟩))) := by
  have hdefines : (Session.given base configured defines calls).defines =
      assignAll [] (configured ++ folded (defines ++ calls)) := by rw [Session.given_eq]
  have hbase : (Session.given base configured defines calls).base = base := by rw [Session.given_eq]
  generalize Session.given base configured defines calls = z at hdefines hbase
  rw [unambiguous_iff, hdefines, ← seed_assignAll]
  constructor
  · rintro ⟨symbols, hseed⟩
    refine ⟨symbols, hseed, Session.labels_of_seed hseed, ?_, ?_⟩
    · intro name
      obtain ⟨rfl, -⟩ := Session.symbols_of_seed hseed
      have hapart := seed_assignAll.1 ⟨_, hseed⟩
      rw [← folded, value?_predefined_folded, @valueOf_assignAll [] _ hapart, lastValue?_folded, List.append_assoc]
      exact Option.or_none
    · intro source start file
      rw [← hdefines] at hseed
      constructor
      · intro d hd
        simp only [Session.assemble, hseed, hd]
      · intro tokens ht
        rw [(Session.assemble_of_run hseed ht).1, hbase]
  · intro h
    rcases hseed : Session.seed (assignAll [] (configured ++ folded (defines ++ calls))) with d | symbols
    · obtain ⟨name, rfl⟩ := Session.duplicate_of_seed hseed
      refine ⟨name, fun source start file => ?_⟩
      rw [← hdefines] at hseed
      simp only [Session.assemble, hseed]
    · exact absurd ⟨symbols, hseed⟩ h

theorem last_value_counts_thrice :
    Unambiguous [("abc", 1), ("Xyz", 5)] ([("ABC", 2)] ++ [("Abc", 3), ("n", 4)]) ∧
      ∃ symbols, Session.seed
          (Session.given 0x4000 [("abc", 1), ("Xyz", 5)] [("ABC", 2)] [("Abc", 3), ("n", 4)]).defines = .ok symbols ∧
        symbols.constants.value? "abc" = some 3 ∧ symbols.constants.value? "xyz" = some 5 := by
  have h : Unambiguous [("abc", 1), ("Xyz", 5)] ([("ABC", 2)] ++ [("Abc", 3), ("n", 4)]) := by decide +kernel
  obtain ⟨symbols, hseed, -, hvalue, -⟩ :=
    (last_value_counts 0x4000 [("abc", 1), ("Xyz", 5)] [("ABC", 2)] [("Abc", 3), ("n", 4)]).1 h
  refine ⟨h, symbols, hseed, (hvalue "abc").trans ?_, (hvalue "xyz").trans ?_⟩
  · decide +kernel
  · decide +kernel

/-- A name that is configured in capitals cannot be given another value. -/
theorem configured_capitals_refused :
    lastValue? ([("FOO", 1)] ++ [("foo", 2)]) "foo" = some 2 ∧
      ((Session.given 0x4000 [("FOO", 1)] [("foo", 2)] []).assemble " lda #foo\n" none "main.asm").2.2 =
        .error (.refused ⟨.duplicateSymbol "foo" none, none, none⟩) := by
  have hseed : Session.seed (Session.given 0x4000 [("FOO", 1)] [("foo", 2)] []).defines =
      .error ⟨.duplicateSymbol "foo" none, none, none⟩ := rfl
  refine ⟨by decide +kernel, ?_⟩
  simp only [Session.assemble, hseed]

end Mc6809
