import Mc6809.Text.Hex

/-!
# Reading UTF-8

A byte sequence is read one byte at a time. Overlong forms, surrogates and code points above U+10FFFF are
refused through the range that the lead byte allows for the byte after it.
-/

namespace Mc6809.Text.Utf8

/-- Why a byte sequence is not UTF-8. -/
inductive Reason where
  | start
  | continuation
  | truncated
  deriving DecidableEq, Repr

/-- A refused stretch: where it starts, how many bytes it has and its first byte. -/
structure Fault where
  reason : Reason
  first : Nat
  length : Nat
  byte : UInt8
  deriving DecidableEq, Repr

/-- What a lead byte announces: the number of bytes that follow, the range of the first of them and the payload
bits. -/
structure Lead where
  owed : Nat
  low : Nat
  high : Nat
  bits : Nat

/-- The meaning of a byte at the start of a character. -/
def lead? (b : UInt8) : Option Lead :=
  let n := b.toNat
  if n < 0x80 then some ⟨0, 0, 0, n⟩
  else if n < 0xC2 then none
  else if n < 0xE0 then some ⟨1, 0x80, 0xBF, n - 0xC0⟩
  else if n < 0xF0 then some ⟨2, if n = 0xE0 then 0xA0 else 0x80, if n = 0xED then 0x9F else 0xBF, n - 0xE0⟩
  else if n < 0xF5 then some ⟨3, if n = 0xF0 then 0x90 else 0x80, if n = 0xF4 then 0x8F else 0xBF, n - 0xF0⟩
  else none

/-- A character that has been started: its first byte and position, the bytes read of it, and what is still
owed. -/
structure Open where
  byte : UInt8
  first : Nat
  seen : Nat
  lead : Lead

/-- Read bytes from position `pos` on, inside a character or (`none`) between characters. -/
def decodeFrom : Nat → Option Open → List UInt8 → Except Fault (List Char)
  | _, none, [] => .ok []
  | _, some o, [] => .error ⟨.truncated, o.first, o.seen, o.byte⟩
  | pos, none, b :: bs =>
    match lead? b with
    | none => .error ⟨.start, pos, 1, b⟩
    | some l =>
      if l.owed = 0 then (decodeFrom (pos + 1) none bs).map (Char.ofNat l.bits :: ·)
      else decodeFrom (pos + 1) (some ⟨b, pos, 1, l⟩) bs
  | pos, some o, b :: bs =>
    if o.lead.low ≤ b.toNat ∧ b.toNat ≤ o.lead.high then
      let bits := o.lead.bits * 64 + (b.toNat - 0x80)
      if o.lead.owed ≤ 1 then (decodeFrom (pos + 1) none bs).map (Char.ofNat bits :: ·)
      else decodeFrom (pos + 1) (some { o with seen := o.seen + 1, lead := ⟨o.lead.owed - 1, 0x80, 0xBF, bits⟩ }) bs
    else .error ⟨.continuation, o.first, o.seen, o.byte⟩

/-- The text of a byte sequence. -/
def decode (bytes : List UInt8) : Except Fault (List Char) :=
  decodeFrom 0 none bytes

/-- The bytes of a text. -/
def encode (s : String) : List UInt8 :=
  s.toUTF8.toList

def Reason.message : Reason → String
  | .start => "invalid start byte"
  | .continuation => "invalid continuation byte"
  | .truncated => "unexpected end of data"

def Fault.message (f : Fault) : String :=
  let place :=
    if f.length = 1 then
      "byte 0x" ++ String.ofList ((paddedHex 2 f.byte.toNat).map Char.toLower) ++ s!" in position {f.first}"
    else s!"bytes in position {f.first}-{f.first + f.length - 1}"
  s!"'utf-8' codec can't decode {place}: {f.reason.message}"

end Mc6809.Text.Utf8
