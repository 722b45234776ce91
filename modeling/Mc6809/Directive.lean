/-!
# Directives

The words that direct the assembler. Several of them are two names for one thing.
-/

namespace Mc6809

inductive Directive where
  | byteList | wordList | equ | const | org | stop | rmb | ds | var | setdp | direct | fill | db | fcb | fcc | dw
  | fdb
  deriving DecidableEq, Repr

namespace Directive

def all : List Directive :=
  [byteList, wordList, equ, const, org, stop, rmb, ds, var, setdp, direct, fill, db, fcb, fcc, dw, fdb]

def name : Directive → String
  | byteList => ".byte" | wordList => ".word" | equ => "equ" | const => "const" | org => "org" | stop => "end"
  | rmb => "rmb" | ds => "ds" | var => "var" | setdp => "setdp" | direct => "direct" | fill => "fill"
  | db => "db" | fcb => "fcb" | fcc => "fcc" | dw => "dw" | fdb => "fdb"

def ofName? (word : String) : Option Directive :=
  all.find? (·.name = word)

end Directive

end Mc6809
