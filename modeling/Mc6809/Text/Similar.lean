/-!
# Similar names

The likeness of two words is twice the number of characters in their matching blocks, over the total length. The
blocks are the longest common stretch and, recursively, the blocks to the left and to the right of it.
-/

namespace Mc6809.Text

/-- A common stretch: where it starts in the first and in the second word, and its length. -/
structure Stretch where
  left : Nat
  right : Nat
  length : Nat
  deriving DecidableEq, Repr

/-- For each position of the second word, the length of the common stretch that ends there when the first word
ends with `c`. `above` is the same row for the first word without `c`, shifted by one position. -/
def stretchRow (used : Char → Bool) (c : Char) : List Char → List Nat → List Nat
  | [], _ => []
  | d :: ds, above =>
    (if c = d ∧ used d then above.headD 0 + 1 else 0) :: stretchRow used c ds above.tail

/-- Keep the longest stretch, the earlier one on a tie. Position `j` of the row belongs to a stretch that ends
there. -/
def bestInRow (i : Nat) : Nat → List Nat → Stretch → Stretch
  | _, [], best => best
  | j, k :: ks, best =>
    bestInRow i (j + 1) ks (if best.length < k then ⟨i + 1 - k, j + 1 - k, k⟩ else best)

/-- The longest stretch whose characters are all `used`: earliest in the first word, then earliest in the
second. -/
def longestUsed (used : Char → Bool) (b : List Char) : Nat → List Nat → List Char → Stretch → Stretch
  | _, _, [], best => best
  | i, above, c :: cs, best =>
    let row := stretchRow used c b (0 :: above)
    longestUsed used b (i + 1) row cs (bestInRow i 0 row best)

/-- The number of positions at which two words agree before they first differ. -/
def agreement : List Char → List Char → Nat
  | c :: cs, d :: ds => if c = d then agreement cs ds + 1 else 0
  | _, _ => 0

/-- The longest stretch, extended over equal neighbours on both sides. -/
def longestStretch (used : Char → Bool) (a b : List Char) : Stretch :=
  let core := longestUsed used b 0 [] a ⟨0, 0, 0⟩
  let before := agreement (a.take core.left).reverse (b.take core.right).reverse
  let after := agreement (a.drop (core.left + core.length)) (b.drop (core.right + core.length))
  ⟨core.left - before, core.right - before, before + core.length + after⟩

/-- The number of characters in the matching blocks of two words. -/
def matched (used : Char → Bool) (a b : List Char) : Nat :=
  match longestStretch used a b with
  | ⟨left, right, length⟩ =>
    if _h : 0 < length ∧ left + length ≤ a.length then
      matched used (a.take left) (b.take right) + length +
        matched used (a.drop (left + length)) (b.drop (right + length))
    else 0
termination_by a.length
decreasing_by all_goals simp only [List.length_take, List.length_drop]; omega

/-- Whether a character of `word` may start a stretch. In a word of 200 characters or more the characters that
make up more than about a hundredth of it may not. -/
def mayStart (word : List Char) (c : Char) : Bool :=
  !(200 ≤ word.length && word.length / 100 + 1 < word.count c)

/-- A candidate and its likeness to a word as a fraction. -/
structure Likeness where
  name : String
  num : Nat
  den : Nat

/-- How alike a candidate is to a word. Two empty words are alike. -/
def likeness (word candidate : String) : Likeness :=
  let a := candidate.toList
  let b := word.toList
  let total := a.length + b.length
  if total = 0 then ⟨candidate, 1, 1⟩ else ⟨candidate, 2 * matched (mayStart b) a b, total⟩

/-- Whether a candidate reaches the ratio `num / den`. -/
def Likeness.reaches (l : Likeness) (num den : Nat) : Bool :=
  num * l.den ≤ l.num * den

/-- The more alike candidate comes first, then the one with the greater name. -/
def Likeness.before (x y : Likeness) : Bool :=
  y.num * x.den < x.num * y.den || (y.num * x.den = x.num * y.den && !(x.name < y.name))

/-- The `count` best candidates that reach the ratio, best first. -/
def closest (count num den : Nat) (word : String) (candidates : List String) : List String :=
  (((candidates.map (likeness word)).filter (·.reaches num den)).mergeSort Likeness.before).take count |>.map (·.name)

end Mc6809.Text
