/-!
# Hexadecimal text

Numbers in upper-case hexadecimal, padded with zeros. The sign of a negative number counts as part of the width.
-/

namespace Mc6809.Text

/-- Fill up to a width on the left. -/
def padLeft (width : Nat) (fill : Char) (cs : List Char) : List Char :=
  List.replicate (width - cs.length) fill ++ cs

/-- Fill up to a width on the right. -/
def padRight (width : Nat) (fill : Char) (cs : List Char) : List Char :=
  cs ++ List.replicate (width - cs.length) fill

/-- The hexadecimal digits of a number, most significant first, in upper case. -/
def hexDigits (n : Nat) : List Char :=
  (Nat.toDigits 16 n).map Char.toUpper

/-- The hexadecimal digits of a number, filled up with zeros to a width. -/
def paddedHex (width n : Nat) : List Char :=
  padLeft width '0' (hexDigits n)

/-- An integer in hexadecimal, at least `width` characters wide with its sign. -/
def hex (width : Nat) (n : Int) : String :=
  String.ofList <|
    if n < 0 then '-' :: paddedHex (width - 1) n.natAbs else paddedHex width n.natAbs

end Mc6809.Text
