/-!
# Control sequences

A control sequence tells a terminal to move, to clear or to change its colours. It is an escape character and an
opening bracket, then parameters, then intermediates, then one final character. Printed messages go without them.
-/

namespace Mc6809.Text

/-- The characters from `0` to `?`. -/
def isParameter (c : Char) : Bool :=
  '0' ≤ c && c ≤ '?'

/-- The characters from the blank to `/`. -/
def isIntermediate (c : Char) : Bool :=
  ' ' ≤ c && c ≤ '/'

/-- The characters from `@` to `~`. -/
def isFinal (c : Char) : Bool :=
  '@' ≤ c && c ≤ '~'

/-- What follows a control sequence, given the text after its opening bracket. -/
def afterControl? (cs : List Char) : Option (List Char) :=
  match (cs.dropWhile isParameter).dropWhile isIntermediate with
  | [] => none
  | c :: rest => if isFinal c then some rest else none

theorem afterControl?_length {cs rest : List Char} (h : afterControl? cs = some rest) :
    rest.length < cs.length := by
  have hp := (List.dropWhile_suffix (l := cs) isParameter).length_le
  have hi := (List.dropWhile_suffix (l := cs.dropWhile isParameter) isIntermediate).length_le
  unfold afterControl? at h
  split at h
  · cases h
  · next c r hd =>
    rw [hd, List.length_cons] at hi
    split at h
    · cases h
      omega
    · cases h

/-- A text without its control sequences. Beginnings of sequences that do not end as one stay. -/
def dropControls (cs : List Char) : List Char :=
  match cs with
  | [] => []
  | '\x1b' :: '[' :: cs =>
    match _h : afterControl? cs with
    | some rest => dropControls rest
    | none => '\x1b' :: dropControls ('[' :: cs)
  | c :: cs => c :: dropControls cs
termination_by cs.length
decreasing_by
  · have := afterControl?_length _h
    simp only [List.length_cons]
    omega
  · simp
  · simp

/-- A message as it is printed. -/
def printed (s : String) : String :=
  String.ofList (dropControls s.toList)

end Mc6809.Text
