import Mc6809.Proofs.Predefined

/-!
# Histories of sessions

A session takes requests one after the other: to define constants, to forget its results, to assemble sources and
files, and to tell its results.  Whatever it was asked before, what is left of that besides the results of the last
run are the definitions (`Session.reset_after`), and a run does not look at earlier results
(`Session.assemble_cases`).  So every run goes as it would in a new session with the same definitions.
-/

namespace Mc6809

/-- What can be read from a session. -/
inductive Query where
  | labels | constants | symbols | code | listing | symbolFile
  deriving DecidableEq, Repr

inductive Answer where
  | pairs (ps : List (String × Int))
  | bytes (bs : List UInt8)
  | text (t : Except Trouble String)

inductive Request where
  | define (name : String) (value : Int)
  | reset
  | assemble (source : String) (base : Option Int) (file : String)
  | assembleFile (tree : FileTree) (name : String) (base : Option Int)
  | read (q : Query)

inductive Response where
  | done
  | outcome (log : List Report) (result : Except Trouble (List UInt8))
  | answer (a : Answer)

namespace Request

/-- The constant that a request defines. -/
def definition? : Request → Option (String × Int)
  | define name value => some (name, value)
  | _ => none

def isRead : Request → Bool
  | read _ => true
  | _ => false

end Request

/-- The constants that are defined in the course of a history. -/
def definitions (history : List Request) : List (String × Int) :=
  history.filterMap Request.definition?

namespace Session

def answer (z : Session) : Query → Answer
  | .labels => .pairs z.labels
  | .constants => .pairs z.constants
  | .symbols => .pairs z.symbols
  | .code => .bytes z.code
  | .listing => .text z.listing
  | .symbolFile => .text z.symbolFile

/-- Carry out a request. -/
def perform (z : Session) : Request → Session × Response
  | .define name value => (z.define name value, .done)
  | .reset => (z.reset, .done)
  | .assemble source base file =>
    let (z, log, result) := z.assemble source base file
    (z, .outcome log result)
  | .assembleFile tree name base =>
    let (z, log, result) := z.assembleFile tree name base
    (z, .outcome log result)
  | .read q => (z, .answer (z.answer q))

/-- The session after some requests, the first one first. -/
def after (z : Session) (history : List Request) : Session :=
  history.foldl (fun z r => (z.perform r).1) z

/-- A run gets to the statements of a source: the constants have different names and the source has tokens. -/
def Starts (z : Session) (source file : String) : Prop :=
  (seed z.defines).isOk = true ∧ (tokenize source file).isOk = true

instance (z : Session) (source file : String) : Decidable (z.Starts source file) :=
  inferInstanceAs (Decidable (_ ∧ _))

/-! ### What a run looks at -/

variable (z : Session) (source file : String) (base : Option Int)

/-- A run is refused before the first statement and leaves the session as it was, or it puts its own results in the
place of those of the run before.  Neither depends on these. -/
theorem assemble_cases :
    (∃ d, ¬z.Starts source file ∧
      ∀ last, assemble { z with last } source base file = ({ z with last }, [], .error (.refused d))) ∨
    ∃ r log result, z.Starts source file ∧
      ∀ last, assemble { z with last } source base file = ({ z with last := some r }, log, result) := by
  rcases hseed : seed z.defines with d | symbols
  · have hnot : ¬z.Starts source file := by
      rintro ⟨hok, -⟩
      rw [hseed] at hok
      cases hok
    exact .inl ⟨d, hnot, fun last => by simp only [assemble, hseed]⟩
  · rcases htokens : tokenize source file with d | tokens
    · have hnot : ¬z.Starts source file := by
        rintro ⟨-, hok⟩
        rw [htokens] at hok
        cases hok
      exact .inl ⟨d, hnot, fun last => by simp only [assemble, hseed, htokens]⟩
    · have hstarts : z.Starts source file := ⟨by rw [hseed]; rfl, by rw [htokens]; rfl⟩
      rcases hfailure : (Mc6809.run { base := base.getD z.base, symbols } (Line.split tokens)).failure with _ | e
      · exact .inr ⟨_, _, _, hstarts, fun last => by simp only [assemble, hseed, htokens, hfailure]; rfl⟩
      · exact .inr ⟨_, _, _, hstarts, fun last => by simp only [assemble, hseed, htokens, hfailure]; rfl⟩

/-! ### What requests leave behind -/

private theorem reset_assemble_fst : (z.assemble source base file).1.reset = z.reset := by
  rcases z.assemble_cases source file base with ⟨d, -, hrun⟩ | ⟨r, log, result, -, hrun⟩
  · exact congrArg (fun p => p.1.reset) (hrun z.last)
  · exact congrArg (fun p => p.1.reset) (hrun z.last)

private theorem reset_assembleFile_fst (tree : FileTree) (name : String) :
    (z.assembleFile tree name base).1.reset = z.reset := by
  unfold assembleFile
  dsimp only
  split
  · rfl
  · exact reset_assemble_fst ..

/-- Results apart, a request changes nothing but what it defines. -/
private theorem reset_perform (r : Request) :
    (z.perform r).1.reset = r.definition?.toList.foldl (fun z p => z.define p.1 p.2) z.reset := by
  cases r with
  | define => rfl
  | reset => rfl
  | assemble source base file => exact z.reset_assemble_fst source file base
  | assembleFile tree name base => exact z.reset_assembleFile_fst base tree name
  | read => rfl

/-- Results apart, a history leaves nothing but its definitions. -/
theorem reset_after (history : List Request) :
    (z.after history).reset = (definitions history).foldl (fun z p => z.define p.1 p.2) z.reset := by
  induction history generalizing z with
  | nil => rfl
  | cons r history ih =>
    have hdefinitions : definitions (r :: history) = r.definition?.toList ++ definitions history := by
      rw [definitions, List.filterMap_cons]
      cases r.definition? <;> rfl
    rw [hdefinitions, List.foldl_append, ← reset_perform]
    exact ih (z.perform r).1

/-- It makes no difference what is read in between. -/
private theorem after_filter_read (history : List Request) :
    z.after (history.filter fun r => !r.isRead) = z.after history := by
  induction history generalizing z with
  | nil => rfl
  | cons r history ih =>
    cases r with
    | read q => exact ih z
    | define name value => exact ih (z.define name value)
    | reset => exact ih z.reset
    | assemble source base file => exact ih (z.assemble source base file).1
    | assembleFile tree name base => exact ih (z.assembleFile tree name base).1

end Session

/-- After any history a source is assembled, or refused, as in a new session that was given the same constants.  If
the run gets to the statements of the source, both sessions are the same after it, and so is all that can be read from
them.  If it does not, the source is refused, and the session is what it was before.  What is read in the course of
the history makes no difference. -/
theorem runs_do_not_interfere {base : Int} {configured defines : List (String × Int)} {history : List Request}
    {z fresh : Session} (hz : z = (Session.create base configured defines).after history)
    (hfresh : fresh = Session.given base configured defines (definitions history)) (source : String)
    (start : Option Int) (file : String) :
    (z.perform (.assemble source start file)).2 = (fresh.perform (.assemble source start file)).2 ∧
      (z.Starts source file →
        (z.perform (.assemble source start file)).1 = (fresh.perform (.assemble source start file)).1) ∧
      (¬z.Starts source file →
        ∃ d, z.perform (.assemble source start file) = (z, .outcome [] (.error (.refused d)))) ∧
      z = (Session.create base configured defines).after (history.filter fun r => !r.isRead) := by
  have hreset : z.reset = fresh := by
    rw [hz, hfresh, Session.reset_after]
    rfl
  have hreads : z = (Session.create base configured defines).after (history.filter fun r => !r.isRead) := by
    rw [Session.after_filter_read, hz]
  rw [← hreset]
  rcases z.assemble_cases source file start with ⟨d, hnot, hrun⟩ | ⟨r, log, result, hstarts, hrun⟩
  · have hperform : ∀ last, Session.perform { z with last } (.assemble source start file) =
        ({ z with last }, .outcome [] (.error (.refused d))) := by
      intro last
      simp only [Session.perform, hrun last]
    refine ⟨?_, fun h => absurd h hnot, fun _ => ⟨d, hperform z.last⟩, hreads⟩
    exact (congrArg Prod.snd (hperform z.last)).trans (congrArg Prod.snd (hperform none)).symm
  · have hperform : z.perform (.assemble source start file) = z.reset.perform (.assemble source start file) := by
      have hfirst : z.assemble source start file = _ := hrun z.last
      have hsecond : z.reset.assemble source start file = _ := hrun none
      simp only [Session.perform, hfirst, hsecond]
    exact ⟨congrArg Prod.snd hperform, fun _ => congrArg Prod.fst hperform, fun h => absurd hstarts h, hreads⟩

/-- Runs that come to their end or fail in the lexer, in the first and in the second pass, with other requests between
them. -/
private def eventful : List Request :=
  [.assemble "a: rts\n" none "a.asm", .read .listing, .define "N" 4, .assemble "\x27" none "b.asm", .read .labels,
    .assemble " org m\n" none "c.asm", .define "n" 5, .assemble "c: lda m\n" none "d.asm", .reset,
    .assemble "e: bra e\n" (some 8) "e.asm", .read .code]

theorem runs_do_not_interfere_eventful :
    ∃ z fresh, z = (Session.create 0 [("k", 1)] []).after eventful ∧
      fresh = Session.given 0 [("k", 1)] [] [("N", 4), ("n", 5)] ∧ z.code = [0x20, 0xFE] ∧ fresh.code = [] ∧
      z.Starts "d: lda #n\n" "f.asm" ∧
      (z.perform (.assemble "d: lda #n\n" none "f.asm")).1 =
        (fresh.perform (.assemble "d: lda #n\n" none "f.asm")).1 ∧
      (fresh.perform (.assemble "d: lda #n\n" none "f.asm")).1.code = [0x86, 5] ∧
      ¬z.Starts "'" "g.asm" ∧ ∃ d, z.perform (.assemble "'" none "g.asm") = (z, .outcome [] (.error (.refused d))) := by
  let z := (Session.create 0 [("k", 1)] []).after eventful
  let fresh := Session.given 0 [("k", 1)] [] [("N", 4), ("n", 5)]
  have hz : z = (Session.create 0 [("k", 1)] []).after eventful := rfl
  have hfresh : fresh = Session.given 0 [("k", 1)] [] (definitions eventful) := rfl
  have hrun : z.code = [0x20, 0xFE] ∧ fresh.code = [] ∧ z.Starts "d: lda #n\n" "f.asm" ∧
      (fresh.perform (.assemble "d: lda #n\n" none "f.asm")).1.code = [0x86, 5] ∧ ¬z.Starts "'" "g.asm" := by
    decide +kernel
  obtain ⟨hcode, hempty, hstarts, hcode', hnot⟩ := hrun
  obtain ⟨-, hsame, -, -⟩ := runs_do_not_interfere hz hfresh "d: lda #n\n" none "f.asm"
  obtain ⟨-, -, hrefused, -⟩ := runs_do_not_interfere hz hfresh "'" none "g.asm"
  exact ⟨z, fresh, hz, hfresh, hcode, hempty, hstarts, hsame hstarts, hcode', hnot, hrefused hnot⟩

end Mc6809
