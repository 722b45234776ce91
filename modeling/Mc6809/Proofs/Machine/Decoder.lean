import Mc6809.Machine.Basic
import Mc6809.Pattern

/-!
# Decoding machine instructions

A decoder for the instruction set.  The opcode determines the form and the shape of the operand, since mnemonics
that share an opcode have both in common (`entry?_opcode`); in an indexed operand the postbyte determines the
rest. Main statement: whatever follows the bytes of an instruction, the decoder reads the instruction and leaves
the rest (`decode_bytes`).  Numbers are read modulo the size they are stored in and the registers of a push or
pull as a set (`Operand.reduced`).
-/

namespace Mc6809

/-! ### Shapes of operands -/

/-- What can follow an opcode. -/
inductive Machine.Shape where
  | none | byte | word | transfer | stack | index
  deriving DecidableEq, Repr

def Machine.Operand.shape : Operand → Shape
  | none => .none
  | byte _ => .byte
  | word _ => .word
  | transfer _ _ => .transfer
  | stack _ => .stack
  | index _ => .index

/-- What follows the opcode of a form, unless it is a transfer, a push or a pull. -/
def Form.shape (f : Form) : Machine.Shape :=
  match f.mode with
  | .inherent => .none
  | .immediate => if f.operandSize = 1 then .byte else .word
  | .direct => .byte
  | .extended => .word
  | .indexed => .index
  | .relative => if f.operandSize = 2 then .word else .byte

/-- What follows the opcode of a mnemonic in one of its forms. -/
def Mnemonic.shape (m : Mnemonic) (f : Form) : Machine.Shape :=
  match m.pattern with
  | .transfer _ => .transfer
  | .stack _ _ _ => .stack
  | _ => f.shape

theorem Mnemonic.mem_all (m : Mnemonic) : m ∈ all := by
  cases m <;> decide

/-! ### Registers -/

namespace StackRegister

/-- The registers that have bits of their own in a mask, lowest bit first. -/
def single : List StackRegister := [cc, a, b, dp, x, y, other, pc]

/-- The registers that a register consists of. -/
def parts : StackRegister → List StackRegister
  | d => [a, b]
  | r => [r]

end StackRegister

def TransferRegister.all : List TransferRegister := [d, x, y, u, s, pc, a, b, cc, dp]

def TransferRegister.ofCode? (code : Nat) : Option TransferRegister :=
  all.find? (·.code = code)

/-- The index register with a field in a postbyte. -/
def IndexRegister.ofField (field : Nat) : IndexRegister :=
  match field with
  | 0 => x
  | 1 => y
  | 2 => u
  | _ => s

namespace Machine

/-! ### The decoder -/

/-- The forms of all mnemonics, with what follows their opcodes. -/
def entries : List (Form × Shape) :=
  Mnemonic.all.flatMap fun m => m.forms.map fun f => (f, m.shape f)

/-- The form that has an opcode, and what follows it. -/
def entry? (opcode : Nat) : Option (Form × Shape) :=
  entries.find? (·.1.opcode = opcode)

def decodeByte : List UInt8 → Option (Int × List UInt8)
  | n :: rest => some (n.toNat, rest)
  | [] => none

def decodeWord : List UInt8 → Option (Int × List UInt8)
  | high :: low :: rest => some (0x100 * high.toNat + low.toNat, rest)
  | _ => none

/-- The registers of a push or pull. -/
def decodeMask (mask : Nat) : List StackRegister :=
  StackRegister.single.filter fun r => mask &&& r.mask ≠ 0

/-- Read an operand that goes through an index register, the program counter or a pointer. -/
def decodeIndex : List UInt8 → Option (Index × List UInt8)
  | [] => none
  | p :: rest =>
    let r := IndexRegister.ofField (p.toNat / 0x20 % 4)
    let indirect : Bool := p.toNat / 0x10 % 2 = 1
    if p.toNat < 0x80 then some (.packed r (Int.bmod (p.toNat % 0x20 : Nat) 0x20), rest)
    else
      match p.toNat % 0x10 with
      | 0 => some (.stepping .inc r indirect, rest)
      | 1 => some (.stepping .inc2 r indirect, rest)
      | 2 => some (.stepping .dec r indirect, rest)
      | 3 => some (.stepping .dec2 r indirect, rest)
      | 4 => some (.noOffset r indirect, rest)
      | 5 => some (.accumulator .b r indirect, rest)
      | 6 => some (.accumulator .a r indirect, rest)
      | 8 => (decodeByte rest).map fun (n, rest) => (.byteOffset r indirect (n.bmod 0x100), rest)
      | 9 => (decodeWord rest).map fun (n, rest) => (.wordOffset r indirect (n.bmod 0x10000), rest)
      | 11 => some (.accumulator .d r indirect, rest)
      | 12 => (decodeByte rest).map fun (n, rest) => (.byteCounter indirect (n.bmod 0x100), rest)
      | 13 => (decodeWord rest).map fun (n, rest) => (.wordCounter indirect (n.bmod 0x10000), rest)
      | 15 =>
        match rest with
        | low :: high :: rest => some (.pointer (0x100 * high.toNat + low.toNat), rest)
        | _ => none
      | _ => none

/-- Read an operand of a shape. -/
def decodeOperand (shape : Shape) (bytes : List UInt8) : Option (Operand × List UInt8) :=
  match shape with
  | .none => some (.none, bytes)
  | .byte => (decodeByte bytes).map fun (n, rest) => (.byte n, rest)
  | .word => (decodeWord bytes).map fun (n, rest) => (.word n, rest)
  | .transfer =>
    match bytes with
    | p :: rest =>
      match TransferRegister.ofCode? (p.toNat / 0x10), TransferRegister.ofCode? (p.toNat % 0x10) with
      | some source, some target => some (.transfer source target, rest)
      | _, _ => none
    | [] => none
  | .stack =>
    match bytes with
    | p :: rest => some (.stack (decodeMask p.toNat), rest)
    | [] => none
  | .index => (decodeIndex bytes).map fun (i, rest) => (.index i, rest)

/-- Read the operand behind an opcode. -/
def decodeAfter (opcode : Nat) (bytes : List UInt8) : Option (Instruction × List UInt8) :=
  match entry? opcode with
  | some (f, shape) => (decodeOperand shape bytes).map fun (o, rest) => (⟨f, o⟩, rest)
  | none => none

/-- Read an instruction. The page bytes `0x10` and `0x11` start opcodes of two bytes. -/
def decode : List UInt8 → Option (Instruction × List UInt8)
  | [] => none
  | b :: rest =>
    if b = 0x10 ∨ b = 0x11 then
      match rest with
      | c :: rest => decodeAfter (0x100 * b.toNat + c.toNat) rest
      | [] => none
    else decodeAfter b.toNat rest

/-- An indexed operand as it is read back. -/
def Index.reduced : Index → Index
  | packed r offset => packed r (offset.bmod 0x20)
  | byteOffset r indirect offset => byteOffset r indirect (offset.bmod 0x100)
  | wordOffset r indirect offset => wordOffset r indirect (offset.bmod 0x10000)
  | byteCounter indirect offset => byteCounter indirect (offset.bmod 0x100)
  | wordCounter indirect offset => wordCounter indirect (offset.bmod 0x10000)
  | pointer address => pointer (address % 0x10000)
  | i => i

/-- An operand as it is read back: numbers modulo the size they are stored in, and each register of a push or pull
once. -/
def Operand.reduced : Operand → Operand
  | byte n => byte (n % 0x100)
  | word n => word (n % 0x10000)
  | stack rs => stack (StackRegister.single.filter (· ∈ rs.flatMap StackRegister.parts))
  | index i => index i.reduced
  | o => o

/-! ### Numbers -/

theorem toNat_lowByte (n : Int) : ((lowByte n).toNat : Int) = n % 0x100 := by
  have h : (n % 0x100).toNat < 256 := by omega
  rw [lowByte, UInt8.toNat_ofNat_of_lt' h]
  omega

private theorem decodeByte_lowByte (n : Int) (rest : List UInt8) :
    decodeByte (lowByte n :: rest) = some (n % 0x100, rest) := by
  rw [decodeByte, toNat_lowByte]

private theorem decodeWord_wordBytes (n : Int) (rest : List UInt8) :
    decodeWord (wordBytes n ++ rest) = some (n % 0x10000, rest) := by
  have h : 0x100 * (n / 0x100 % 0x100) + n % 0x100 = n % 0x10000 := by omega
  simp only [wordBytes, List.cons_append, List.nil_append, decodeWord, toNat_lowByte, h]

private theorem emod_bmod_packed (n : Int) : (n % 0x20).bmod 0x20 = n.bmod 0x20 :=
  Int.emod_bmod n 0x20

private theorem emod_bmod_byte (n : Int) : (n % 0x100).bmod 0x100 = n.bmod 0x100 :=
  Int.emod_bmod n 0x100

private theorem emod_bmod_word (n : Int) : (n % 0x10000).bmod 0x10000 = n.bmod 0x10000 :=
  Int.emod_bmod n 0x10000

/-- A number is read back as it is if it lies within half the size in both directions. -/
theorem bmod_eq_self_iff (n : Int) (size : Nat) (h : 0 < size) :
    n.bmod size = n ↔ -(size / 2 : Int) ≤ n ∧ n < (size + 1) / 2 := by
  rw [Int.bmod_eq_iff h]
  simp

/-! ### Indexed operands -/

private theorem decodeIndex_packed (r : IndexRegister) (offset : Int) (rest : List UInt8) :
    decodeIndex ((Index.packed r offset).bytes ++ rest) = some (.packed r (offset.bmod 0x20), rest) := by
  have hfield : r.field < 4 := by cases r <;> decide
  have hr : IndexRegister.ofField r.field = r := by cases r <;> rfl
  have hlt : 0x20 * r.field + (offset % 0x20).toNat < 256 := by omega
  have hp : (UInt8.ofNat (0x20 * r.field + (offset % 0x20).toNat)).toNat =
      0x20 * r.field + (offset % 0x20).toNat := UInt8.toNat_ofNat_of_lt' hlt
  have hlow : (0x20 * r.field + (offset % 0x20).toNat) % 0x20 = (offset % 0x20).toNat := by omega
  have hhigh : (0x20 * r.field + (offset % 0x20).toNat) / 0x20 % 4 = r.field := by omega
  have hpos : ((offset % 0x20).toNat : Int) = offset % 0x20 := by omega
  simp only [Index.bytes, List.cons_append, List.nil_append, decodeIndex, hp, hlow, hhigh, hr, hpos]
  rw [if_pos (by omega), emod_bmod_packed]

/-- The postbyte tells the kinds of operands apart, so the decoder reads back every one of them. -/
private theorem decodeIndex_bytes (i : Index) (rest : List UInt8) :
    decodeIndex (i.bytes ++ rest) = some (i.reduced, rest) := by
  cases i with
  | packed r offset => exact decodeIndex_packed r offset rest
  | noOffset r indirect => cases r <;> cases indirect <;> rfl
  | accumulator acc r indirect => cases acc <;> cases r <;> cases indirect <;> rfl
  | stepping step r indirect => cases step <;> cases r <;> cases indirect <;> rfl
  -- The postbyte of an offset is a fixed one for each register, so evaluation leaves only the offset to be read.
  | byteOffset r indirect offset =>
    have h : decodeIndex ((Index.byteOffset r indirect offset).bytes ++ rest) =
        (decodeByte (lowByte offset :: rest)).map
          fun (n, rest) => (.byteOffset r indirect (n.bmod 0x100), rest) := by
      cases r <;> cases indirect <;> rfl
    rw [h, decodeByte_lowByte]
    simp only [Option.map_some, emod_bmod_byte, Index.reduced]
  | wordOffset r indirect offset =>
    have h : decodeIndex ((Index.wordOffset r indirect offset).bytes ++ rest) =
        (decodeWord (wordBytes offset ++ rest)).map fun (n, rest) =>
          (.wordOffset r indirect (n.bmod 0x10000), rest) := by
      cases r <;> cases indirect <;> rfl
    rw [h, decodeWord_wordBytes]
    simp only [Option.map_some, emod_bmod_word, Index.reduced]
  | byteCounter indirect offset =>
    have h : decodeIndex ((Index.byteCounter indirect offset).bytes ++ rest) =
        (decodeByte (lowByte offset :: rest)).map
          fun (n, rest) => (.byteCounter indirect (n.bmod 0x100), rest) := by
      cases indirect <;> rfl
    rw [h, decodeByte_lowByte]
    simp only [Option.map_some, emod_bmod_byte, Index.reduced]
  | wordCounter indirect offset =>
    have h : decodeIndex ((Index.wordCounter indirect offset).bytes ++ rest) =
        (decodeWord (wordBytes offset ++ rest)).map fun (n, rest) =>
          (.wordCounter indirect (n.bmod 0x10000), rest) := by
      cases indirect <;> rfl
    rw [h, decodeWord_wordBytes]
    simp only [Option.map_some, emod_bmod_word, Index.reduced]
  | pointer address =>
    have h : decodeIndex ((Index.pointer address).bytes ++ rest) =
        some (.pointer (0x100 * (lowByte (address / 0x100)).toNat + (lowByte address).toNat), rest) := rfl
    have hn : 0x100 * (address / 0x100 % 0x100) + address % 0x100 = address % 0x10000 := by omega
    rw [h, toNat_lowByte, toNat_lowByte, hn]
    rfl

/-! ### Registers -/

private theorem decode_transfer (source target : TransferRegister) (rest : List UInt8) :
    decodeOperand .transfer ((Operand.transfer source target).bytes ++ rest) =
      some (.transfer source target, rest) := by
  cases source <;> cases target <;> rfl

private theorem foldl_mask_and (c : Nat) (rs : List StackRegister) (mask : Nat) :
    rs.foldl (fun mask r => mask ||| r.mask) mask &&& c = 0 ↔ mask &&& c = 0 ∧ ∀ r ∈ rs, r.mask &&& c = 0 := by
  induction rs generalizing mask with
  | nil => simp
  | cons r rs ih =>
    rw [List.foldl_cons, ih, Nat.and_or_distrib_right, Nat.or_eq_zero_iff, List.forall_mem_cons, and_assoc]

private theorem foldl_mask_lt (rs : List StackRegister) {mask : Nat} (h : mask < 0x100) :
    rs.foldl (fun mask r => mask ||| r.mask) mask < 0x100 := by
  induction rs generalizing mask with
  | nil => exact h
  | cons r rs ih => exact ih (Nat.or_lt_two_pow (n := 8) h (by cases r <;> decide))

/-- The bit of a register is set in a mask exactly if the register is part of one in the list. -/
private theorem stackMask_and {r : StackRegister} (hr : r ∈ StackRegister.single) (rs : List StackRegister) :
    stackMask rs &&& r.mask ≠ 0 ↔ r ∈ rs.flatMap StackRegister.parts := by
  have hpart : ∀ r' : StackRegister, r'.mask &&& r.mask = 0 ↔ r ∉ r'.parts := by
    intro r'
    revert r
    cases r' <;> decide
  rw [stackMask, Ne, foldl_mask_and, List.mem_flatMap]
  simp [hpart]

private theorem decodeMask_stackMask (rs : List StackRegister) :
    decodeMask (stackMask rs) = StackRegister.single.filter (· ∈ rs.flatMap StackRegister.parts) := by
  apply List.filter_congr
  intro r hr
  simp only [stackMask_and hr]

/-! ### Instructions -/

private theorem decodeOperand_bytes (o : Operand) (rest : List UInt8) :
    decodeOperand o.shape (o.bytes ++ rest) = some (o.reduced, rest) := by
  cases o with
  | none => rfl
  | byte n =>
    simp only [Operand.shape, Operand.bytes, List.cons_append, List.nil_append, decodeOperand,
      decodeByte_lowByte, Option.map_some, Operand.reduced]
  | word n =>
    simp only [Operand.shape, Operand.bytes, decodeOperand, decodeWord_wordBytes, Option.map_some, Operand.reduced]
  | transfer source target => exact decode_transfer source target rest
  | stack rs =>
    have hlt : stackMask rs < 0x100 := foldl_mask_lt rs (by decide)
    show some (Operand.stack (decodeMask (UInt8.ofNat (stackMask rs)).toNat), rest) = _
    rw [UInt8.toNat_ofNat_of_lt' hlt, decodeMask_stackMask]
    rfl
  | index i =>
    simp only [Operand.shape, Operand.bytes, decodeOperand, decodeIndex_bytes, Option.map_some, Operand.reduced]

/-- Mnemonics that share an opcode share the form and the shape of the operand. -/
theorem entry?_opcode (m : Mnemonic) {f : Form} (hf : f ∈ m.forms) : entry? f.opcode = some (f, m.shape f) := by
  have h : ∀ e ∈ entries, entry? e.1.opcode = some e := by decide +kernel
  exact h (f, m.shape f) (List.mem_flatMap.2 ⟨m, m.mem_all, List.mem_map_of_mem hf⟩)

/-- An opcode of one byte is no page byte, and one of two bytes starts with a page byte. -/
private theorem opcode_pages (m : Mnemonic) {f : Form} (hf : f ∈ m.forms) :
    f.opcode ≤ 0xFF ∧ f.opcode ≠ 0x10 ∧ f.opcode ≠ 0x11 ∨
      f.opcode / 0x100 = 0x10 ∨ f.opcode / 0x100 = 0x11 := by
  have h : ∀ m ∈ Mnemonic.all, ∀ f ∈ m.forms, f.opcode ≤ 0xFF ∧ f.opcode ≠ 0x10 ∧ f.opcode ≠ 0x11 ∨
      f.opcode / 0x100 = 0x10 ∨ f.opcode / 0x100 = 0x11 := by decide +kernel
  exact h m m.mem_all f hf

/-- The decoder takes an opcode as a whole. -/
private theorem decode_opcodeBytes (m : Mnemonic) {f : Form} (hf : f ∈ m.forms) (bytes : List UInt8) :
    decode (opcodeBytes f.opcode ++ bytes) = decodeAfter f.opcode bytes := by
  -- A page byte is no opcode by itself, so the first byte tells whether the opcode has a second one.
  rcases opcode_pages m hf with ⟨hle, h10, h11⟩ | hpage
  · have hbyte : (lowByte (f.opcode : Int)).toNat = f.opcode := by
      have := toNat_lowByte (f.opcode : Int)
      omega
    have hno : ¬(lowByte (f.opcode : Int) = 0x10 ∨ lowByte (f.opcode : Int) = 0x11) := by
      rintro (h | h)
      · rw [h] at hbyte
        exact h10 hbyte.symm
      · rw [h] at hbyte
        exact h11 hbyte.symm
    rw [opcodeBytes, if_neg (by omega), List.cons_append, List.nil_append, decode.eq_def]
    simp only [if_neg hno, hbyte]
  · have hhigh : (lowByte ((f.opcode : Int) / 0x100)).toNat = f.opcode / 0x100 := by
      have := toNat_lowByte ((f.opcode : Int) / 0x100)
      omega
    have hlow : (lowByte (f.opcode : Int)).toNat = f.opcode % 0x100 := by
      have := toNat_lowByte (f.opcode : Int)
      omega
    have hyes : lowByte ((f.opcode : Int) / 0x100) = 0x10 ∨ lowByte ((f.opcode : Int) / 0x100) = 0x11 := by
      rcases hpage with h | h
      · exact .inl (UInt8.toNat_inj.1 (hhigh.trans h))
      · exact .inr (UInt8.toNat_inj.1 (hhigh.trans h))
    have hsum : 0x100 * (f.opcode / 0x100) + f.opcode % 0x100 = f.opcode := by omega
    rw [opcodeBytes, if_pos (by omega), wordBytes, List.cons_append, List.cons_append, List.nil_append, decode,
      if_pos hyes]
    simp only [hhigh, hlow, hsum]

/-- The decoder reads an instruction of the set off the front of any bytes. -/
theorem decode_bytes (m : Mnemonic) {f : Form} (hf : f ∈ m.forms) {o : Operand} (ho : o.shape = m.shape f)
    (rest : List UInt8) : decode (Instruction.bytes ⟨f, o⟩ ++ rest) = some (⟨f, o.reduced⟩, rest) := by
  rw [Instruction.bytes, List.append_assoc, decode_opcodeBytes m hf, decodeAfter, entry?_opcode m hf]
  simp only [← ho, decodeOperand_bytes, Option.map_some]

end Machine

end Mc6809
