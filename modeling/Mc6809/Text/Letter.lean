import Mc6809.Text.Case

/-!
# Letter case

Names are compared without regard to case: `lower` folds a text to small letters. Two capitals need care. The dotted
capital I becomes a small i with a dot above, and a capital sigma at the end of a word has a form of its own.
-/

namespace Mc6809.Text

/-- The small letters of a character; a character that is no capital stays. -/
def lowerChar (c : Char) : List Char :=
  let n := c.toNat
  if n < 0x80 then [c.toLower]
  else if n = 0x130 then ['i', '\u0307']
  else
    match capitals.find? (·.has n) with
    | some r => [Char.ofNat (r.small + (n - r.first))]
    | none => [c]

/-- Whether the first character that is not looked through has case. -/
def startsCased (cs : List Char) : Bool :=
  match cs.dropWhile (inRanges ignorable) with
  | [] => false
  | c :: _ => inRanges cased c

/-- The small sigma between two texts, of which the first is given backwards. -/
def lowerSigma (before after : List Char) : Char :=
  if startsCased before && !startsCased after then 'ς' else 'σ'

/-- A text in small letters. `before` is the text in front of it, backwards. -/
def lowerFrom (before : List Char) : List Char → List Char
  | [] => []
  | c :: cs => (if c = 'Σ' then [lowerSigma before cs] else lowerChar c) ++ lowerFrom (c :: before) cs

/-- A text in small letters. -/
def lower (s : String) : String :=
  String.ofList (lowerFrom [] s.toList)

end Mc6809.Text
