import Mc6809.Assembly.Program

/-!
# Listings and symbol files

The listing shows the address, the bytes and the source of every statement, four bytes to a row, and the symbols
in the order of their names. The symbol file has a line for each symbol.
-/

namespace Mc6809

/-- A value in hexadecimal, the sign in front of the mark. -/
def formatValue (n : Int) : String :=
  String.ofList <|
    if n < 0 then '-' :: '$' :: Text.paddedHex 4 n.natAbs else '$' :: Text.paddedHex 4 n.natAbs

/-- The symbols in the order of their names. -/
def Symbols.sorted (s : Symbols) : List (String × Int) :=
  s.merged.mergeSort fun p q => !(q.1 < p.1)

namespace Listing

/-- Cut bytes into rows of four. -/
def rows : List UInt8 → List (List UInt8)
  | a :: b :: c :: d :: rest => [a, b, c, d] :: rows rest
  | [] => []
  | short => [short]

/-- Bytes as pairs of hexadecimal digits with blanks between them. -/
def bytesText (bytes : List UInt8) : List Char :=
  [' '].intercalate (bytes.map fun b => Text.paddedHex 2 b.toNat)

/-- An address, wrapped to sixteen bits. -/
def addressText (address : Int) : List Char :=
  '$' :: Text.paddedHex 4 (address % 0x10000).toNat

/-- The first row of a statement. -/
def headRow (address : Int) (bytes : List UInt8) (line : Nat) (source : String) : List Char :=
  addressText address ++ [' ', ' '] ++ Text.padRight 11 ' ' (bytesText bytes) ++ [' ', ' '] ++
    Text.padLeft 4 ' ' (Nat.repr line).toList ++ [' ', ' '] ++ source.toList

/-- A further row of a statement. -/
def nextRow (address : Int) (bytes : List UInt8) : List Char :=
  addressText address ++ [' ', ' '] ++ bytesText bytes

/-- The further rows of a statement from an address on. -/
def nextRows (address : Int) : List (List UInt8) → List (List Char)
  | [] => []
  | bytes :: rest => nextRow address bytes :: nextRows (address + 4) rest

/-- The rows of a statement. One without bytes has a row, too. -/
def rowsOf (lines : List String) (r : Row) : List (List Char) :=
  let source := (lineText? lines r.line).getD ""
  match rows r.data with
  | [] => [headRow r.address [] r.line source]
  | bytes :: rest => headRow r.address bytes r.line source :: nextRows (r.address + 4) rest

def header : List (List Char) :=
  ["asm6809 Listing".toList, List.replicate 60 '=', [], "Addr   Code         Line  Source".toList,
    List.replicate 60 '-']

def symbolRow (p : String × Int) : List Char :=
  Text.padRight 20 ' ' p.1.toList ++ " = ".toList ++ (formatValue p.2).toList

/-- All lines of a listing. -/
def textLines (lines : List String) (s : State) : List (List Char) :=
  header ++ s.listing.toList.flatMap (rowsOf lines) ++
    [[], "Symbol Table".toList, List.replicate 30 '-'] ++ s.symbols.sorted.map symbolRow

/-- The listing of a run. -/
def text (lines : List String) (s : State) : String :=
  String.ofList ((textLines lines s).flatMap (· ++ ['\n']))

end Listing

/-- The symbol file of a run. -/
def Symbols.file (s : Symbols) : String :=
  String.join ("# Symbol table\n" :: "# Generated by asm6809\n" ::
    s.sorted.map fun p => p.1 ++ " " ++ formatValue p.2 ++ "\n")

end Mc6809
