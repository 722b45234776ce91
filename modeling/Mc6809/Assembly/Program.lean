import Mc6809.Assembly.Action
import Mc6809.Statement.Reader
import Mc6809.Text.Lines

/-!
# Running a program

A pass walks the lines of a source until they are used up or an `end` directive was carried out, and a run is a
walk for each pass. `steps` shows the states on the way.
-/

namespace Mc6809

open Assemble

/-- Carry out actions in turn and then, if there is a fault, fail with it. -/
def runActions (actions : List Action) (fault : Option Fault) : Assemble Unit := do
  actions.forM Action.run
  match fault with
  | some f => fail f
  | none => pure ()

/-- Carry out a statement. The second pass skips definitions of constants and records the statement. -/
def Statement.run (st : Statement) : Assemble Unit := do
  let s ← get
  let pass := s.pass
  let pc := s.pc
  let size := s.output.size
  match st.label with
  | some (name, place) => bindLabel name place
  | none => pure ()
  if st.constants && pass = .second then pure () else runActions st.actions st.fault
  if pass = .second then
    modify fun s =>
      { s with listing := s.listing.push ⟨pc, (s.output.extract size s.output.size).toList, st.first.line⟩ }

/-- Carry out a line. -/
def Line.run (l : Line) : Assemble Unit :=
  match l.statement? with
  | none => pure ()
  | some st => st.run

/-- Walk lines from a state on, to the state and the failure that the walk ends with. -/
def walk (s : State) : List Line → State × Option Failure
  | [] => (s, none)
  | l :: ls =>
    if s.ended then (s, none)
    else
      match l.run s with
      | .error e s => (s, some e)
      | .ok () s => walk s ls

/-- A state after a line, and the number of the token after the line. -/
structure Step where
  index : Nat
  state : State

/-- The steps of a walk that succeed. -/
def steps (s : State) : List Line → List Step
  | [] => []
  | l :: ls =>
    if s.ended then []
    else
      match l.run s with
      | .error _ _ => []
      | .ok () s => ⟨l.next, s⟩ :: steps s ls

/-- The note at the end of a pass. -/
def State.summary (s : State) : Note :=
  .pass s.pass s.pc s.symbols.labels.length s.symbols.constants.length

/-- The state between the passes, from the state at the end of the first one. -/
def State.turn (s : State) : State :=
  (s.note s.summary).start .second

/-- What a run ends with: its state and the failure, if there is one. -/
structure Run where
  state : State
  failure : Option Failure

/-- Run both passes over the lines of a source. -/
def run (s : State) (lines : List Line) : Run :=
  match walk (s.start .first) lines with
  | (s, some e) => ⟨s, some e⟩
  | (s, none) =>
    match walk s.turn lines with
    | (s, some e) => ⟨s, some e⟩
    | (s, none) => ⟨(s.note s.summary).note (.generated s.output.size), none⟩

/-- The steps of both passes. -/
def trace (s : State) (lines : List Line) : List Step :=
  let first := s.start .first
  match walk first lines with
  | (_, some _) => steps first lines
  | (s, none) => steps first lines ++ steps s.turn lines

/-- The text of a line by its number. -/
def lineText? (lines : List String) (line : Nat) : Option String :=
  if line = 0 then none else lines[line - 1]?

/-- The lines of a source text as they are quoted. -/
def quotedLines (source : String) : List String :=
  (Text.lines source.toList).map String.ofList

/-- The diagnostic for a problem at a token. -/
def Problem.at (p : Problem) (lines : List String) (t : Token) : Diagnostic :=
  ⟨p.diagnosis, some t.location, lineText? lines t.line⟩

end Mc6809
