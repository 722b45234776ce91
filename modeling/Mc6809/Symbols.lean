import Mc6809.Diagnostic
import Mc6809.Text.Similar

/-!
# Symbol tables

Labels and constants are kept in two tables in the order of their definition. Within a table a name is defined
once. A name is looked up among the constants first.
-/

namespace Mc6809

/-- A name with its value and, if it is known, the place of its definition. -/
structure Binding where
  name : String
  value : Int
  place : Option Location
  deriving DecidableEq, Repr

/-- A table of names in the order of their definition. -/
abbrev Bindings := List Binding

namespace Bindings

def binding? (t : Bindings) (name : String) : Option Binding :=
  t.find? (·.name = name)

def value? (t : Bindings) (name : String) : Option Int :=
  (t.binding? name).map (·.value)

def names (t : Bindings) : List String :=
  t.map (·.name)

def pairs (t : Bindings) : List (String × Int) :=
  t.map fun b => (b.name, b.value)

/-- Define a name at the end of the table. A name that is there already is refused with the place of its
definition. -/
def define (t : Bindings) (new : Binding) : Except (Option Location) Bindings :=
  match t.binding? new.name with
  | some old => .error old.place
  | none => .ok (t ++ [new])

end Bindings

/-- Give a key a value in a list of pairs: in place if the key is there, at the end if it is new. -/
def assign {α β : Type} [DecidableEq α] (key : α) (value : β) : List (α × β) → List (α × β)
  | [] => [(key, value)]
  | p :: ps => if p.1 = key then (key, value) :: ps else p :: assign key value ps

/-- Make each assignment in turn. -/
def assignAll {α β : Type} [DecidableEq α] (pairs news : List (α × β)) : List (α × β) :=
  news.foldl (fun ps p => assign p.1 p.2 ps) pairs

/-- The labels and the constants of a run. -/
structure Symbols where
  labels : Bindings := []
  constants : Bindings := []
  deriving DecidableEq, Repr

namespace Symbols

/-- Constants come before labels. -/
def resolve (s : Symbols) (name : String) : Option Int :=
  (s.constants.value? name).or (s.labels.value? name)

/-- Up to three names that are at least three quarters alike. -/
def similar (s : Symbols) (name : String) : List String :=
  Text.closest 3 3 4 name (s.constants.names ++ s.labels.names)

def defineLabel (s : Symbols) (b : Binding) : Except (Option Location) Symbols :=
  (s.labels.define b).map fun t => { s with labels := t }

def defineConstant (s : Symbols) (b : Binding) : Except (Option Location) Symbols :=
  (s.constants.define b).map fun t => { s with constants := t }

/-- All symbols by name: the labels in order, a constant of the same name replacing the value, then the other
constants. -/
def merged (s : Symbols) : List (String × Int) :=
  assignAll s.labels.pairs s.constants.pairs

end Symbols

end Mc6809
