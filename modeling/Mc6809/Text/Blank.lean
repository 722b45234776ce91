/-!
# Blank characters

The white space of Unicode, and a text without the blanks around it.
-/

namespace Mc6809.Text

/-- The 29 white-space characters of Unicode, the four information separators included. -/
def isBlank (c : Char) : Bool :=
  let n := c.toNat
  (0x09 ≤ n && n ≤ 0x0D) || (0x1C ≤ n && n ≤ 0x20) || n = 0x85 || n = 0xA0 || n = 0x1680 ||
    (0x2000 ≤ n && n ≤ 0x200A) || n = 0x2028 || n = 0x2029 || n = 0x202F || n = 0x205F || n = 0x3000

/-- Drop the characters of a class from both ends. -/
def trimWhile (p : Char → Bool) (cs : List Char) : List Char :=
  ((cs.dropWhile p).reverse.dropWhile p).reverse

/-- Drop the blanks from both ends. -/
def strip (cs : List Char) : List Char :=
  trimWhile isBlank cs

end Mc6809.Text
