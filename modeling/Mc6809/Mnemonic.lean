import Mc6809.Text.Hex

/-!
# The instruction set

Every mnemonic with the forms it has. A form is an addressing mode, the opcode for it and the size of the
instruction without a variable index offset. Opcodes above `0xFF` start with a page byte.
-/

namespace Mc6809

/-- The ways an instruction can find its operand. -/
inductive Mode where
  | inherent | immediate | direct | extended | indexed | relative
  deriving DecidableEq, Repr

namespace Mode

def all : List Mode := [inherent, immediate, direct, extended, indexed, relative]

def name : Mode → String
  | inherent => "inherent" | immediate => "immediate" | direct => "direct" | extended => "extended"
  | indexed => "indexed" | relative => "relative"

def ofName? (word : String) : Option Mode :=
  all.find? (·.name = word)

end Mode

/-- One encoding of a mnemonic: its opcode in an addressing mode, and the size of the instruction in bytes. -/
structure Form where
  mode : Mode
  opcode : Nat
  size : Nat
  deriving DecidableEq, Repr

/-- Opcodes with a page byte take two bytes. -/
def Form.opcodeSize (f : Form) : Nat :=
  if 0xFF < f.opcode then 2 else 1

/-- The bytes that follow the opcode, a variable index offset apart. -/
def Form.operandSize (f : Form) : Nat :=
  f.size - f.opcodeSize

/-- A form on display. -/
def Form.display (f : Form) : String :=
  "InstructionInfo(opcode=$" ++ Text.hex 2 f.opcode ++ s!", size={f.size})"

/-- The mnemonics of the processor. -/
inductive Mnemonic where
  | nop | sync | daa | sex | rts | abx | rti | mul | swi | swi2 | swi3 | nega | coma | lsra | rora | asra | asla
  | lsla | rola | deca | inca | tsta | clra | negb | comb | lsrb | rorb | asrb | aslb | lslb | rolb | decb
  | incb | tstb | clrb | neg | com | lsr | ror | asr | asl | lsl | rol | dec | inc | tst | jmp | clr | orcc
  | andcc | cwai | exg | tfr | pshs | puls | pshu | pulu | bra | brn | bhi | bls | bcc | bhs | bcs | blo | bne
  | beq | bvc | bvs | bpl | bmi | bge | blt | bgt | ble | bsr | lbra | lbsr | lbrn | lbhi | lbls | lbcc | lbhs
  | lbcs | lblo | lbne | lbeq | lbvc | lbvs | lbpl | lbmi | lbge | lblt | lbgt | lble | leax | leay | leas
  | leau | suba | cmpa | sbca | subd | anda | bita | lda | sta | eora | adca | ora | adda | cmpx | jsr | ldx
  | stx | subb | cmpb | sbcb | addd | andb | bitb | ldb | stb | eorb | adcb | orb | addb | ldd | std | ldu | stu
  | cmpd | cmpy | ldy | sty | lds | sts | cmpu | cmps
  deriving DecidableEq, Repr

namespace Mnemonic

def all : List Mnemonic := [
  nop, sync, daa, sex, rts, abx, rti, mul, swi, swi2, swi3, nega, coma, lsra, rora, asra, asla, lsla, rola,
  deca, inca, tsta, clra, negb, comb, lsrb, rorb, asrb, aslb, lslb, rolb, decb, incb, tstb, clrb, neg, com, lsr,
  ror, asr, asl, lsl, rol, dec, inc, tst, jmp, clr, orcc, andcc, cwai, exg, tfr, pshs, puls, pshu, pulu, bra,
  brn, bhi, bls, bcc, bhs, bcs, blo, bne, beq, bvc, bvs, bpl, bmi, bge, blt, bgt, ble, bsr, lbra, lbsr, lbrn,
  lbhi, lbls, lbcc, lbhs, lbcs, lblo, lbne, lbeq, lbvc, lbvs, lbpl, lbmi, lbge, lblt, lbgt, lble, leax, leay,
  leas, leau, suba, cmpa, sbca, subd, anda, bita, lda, sta, eora, adca, ora, adda, cmpx, jsr, ldx, stx, subb,
  cmpb, sbcb, addd, andb, bitb, ldb, stb, eorb, adcb, orb, addb, ldd, std, ldu, stu, cmpd, cmpy, ldy, sty, lds,
  sts, cmpu, cmps]

def name : Mnemonic → String
  | nop => "nop" | sync => "sync" | daa => "daa" | sex => "sex" | rts => "rts" | abx => "abx" | rti => "rti"
  | mul => "mul" | swi => "swi" | swi2 => "swi2" | swi3 => "swi3" | nega => "nega" | coma => "coma"
  | lsra => "lsra" | rora => "rora" | asra => "asra" | asla => "asla" | lsla => "lsla" | rola => "rola"
  | deca => "deca" | inca => "inca" | tsta => "tsta" | clra => "clra" | negb => "negb" | comb => "comb"
  | lsrb => "lsrb" | rorb => "rorb" | asrb => "asrb" | aslb => "aslb" | lslb => "lslb" | rolb => "rolb"
  | decb => "decb" | incb => "incb" | tstb => "tstb" | clrb => "clrb" | neg => "neg" | com => "com"
  | lsr => "lsr" | ror => "ror" | asr => "asr" | asl => "asl" | lsl => "lsl" | rol => "rol" | dec => "dec"
  | inc => "inc" | tst => "tst" | jmp => "jmp" | clr => "clr" | orcc => "orcc" | andcc => "andcc"
  | cwai => "cwai" | exg => "exg" | tfr => "tfr" | pshs => "pshs" | puls => "puls" | pshu => "pshu"
  | pulu => "pulu" | bra => "bra" | brn => "brn" | bhi => "bhi" | bls => "bls" | bcc => "bcc" | bhs => "bhs"
  | bcs => "bcs" | blo => "blo" | bne => "bne" | beq => "beq" | bvc => "bvc" | bvs => "bvs" | bpl => "bpl"
  | bmi => "bmi" | bge => "bge" | blt => "blt" | bgt => "bgt" | ble => "ble" | bsr => "bsr" | lbra => "lbra"
  | lbsr => "lbsr" | lbrn => "lbrn" | lbhi => "lbhi" | lbls => "lbls" | lbcc => "lbcc" | lbhs => "lbhs"
  | lbcs => "lbcs" | lblo => "lblo" | lbne => "lbne" | lbeq => "lbeq" | lbvc => "lbvc" | lbvs => "lbvs"
  | lbpl => "lbpl" | lbmi => "lbmi" | lbge => "lbge" | lblt => "lblt" | lbgt => "lbgt" | lble => "lble"
  | leax => "leax" | leay => "leay" | leas => "leas" | leau => "leau" | suba => "suba" | cmpa => "cmpa"
  | sbca => "sbca" | subd => "subd" | anda => "anda" | bita => "bita" | lda => "lda" | sta => "sta"
  | eora => "eora" | adca => "adca" | ora => "ora" | adda => "adda" | cmpx => "cmpx" | jsr => "jsr"
  | ldx => "ldx" | stx => "stx" | subb => "subb" | cmpb => "cmpb" | sbcb => "sbcb" | addd => "addd"
  | andb => "andb" | bitb => "bitb" | ldb => "ldb" | stb => "stb" | eorb => "eorb" | adcb => "adcb"
  | orb => "orb" | addb => "addb" | ldd => "ldd" | std => "std" | ldu => "ldu" | stu => "stu" | cmpd => "cmpd"
  | cmpy => "cmpy" | ldy => "ldy" | sty => "sty" | lds => "lds" | sts => "sts" | cmpu => "cmpu" | cmps => "cmps"

def ofName? (word : String) : Option Mnemonic :=
  all.find? (·.name = word)

/-- The forms of a mnemonic. -/
def forms : Mnemonic → List Form
  | nop => [⟨.inherent, 0x12, 1⟩]
  | sync => [⟨.inherent, 0x13, 1⟩]
  | daa => [⟨.inherent, 0x19, 1⟩]
  | sex => [⟨.inherent, 0x1D, 1⟩]
  | rts => [⟨.inherent, 0x39, 1⟩]
  | abx => [⟨.inherent, 0x3A, 1⟩]
  | rti => [⟨.inherent, 0x3B, 1⟩]
  | mul => [⟨.inherent, 0x3D, 1⟩]
  | swi => [⟨.inherent, 0x3F, 1⟩]
  | swi2 => [⟨.inherent, 0x103F, 2⟩]
  | swi3 => [⟨.inherent, 0x113F, 2⟩]
  | nega => [⟨.inherent, 0x40, 1⟩]
  | coma => [⟨.inherent, 0x43, 1⟩]
  | lsra => [⟨.inherent, 0x44, 1⟩]
  | rora => [⟨.inherent, 0x46, 1⟩]
  | asra => [⟨.inherent, 0x47, 1⟩]
  | asla => [⟨.inherent, 0x48, 1⟩]
  | lsla => [⟨.inherent, 0x48, 1⟩]
  | rola => [⟨.inherent, 0x49, 1⟩]
  | deca => [⟨.inherent, 0x4A, 1⟩]
  | inca => [⟨.inherent, 0x4C, 1⟩]
  | tsta => [⟨.inherent, 0x4D, 1⟩]
  | clra => [⟨.inherent, 0x4F, 1⟩]
  | negb => [⟨.inherent, 0x50, 1⟩]
  | comb => [⟨.inherent, 0x53, 1⟩]
  | lsrb => [⟨.inherent, 0x54, 1⟩]
  | rorb => [⟨.inherent, 0x56, 1⟩]
  | asrb => [⟨.inherent, 0x57, 1⟩]
  | aslb => [⟨.inherent, 0x58, 1⟩]
  | lslb => [⟨.inherent, 0x58, 1⟩]
  | rolb => [⟨.inherent, 0x59, 1⟩]
  | decb => [⟨.inherent, 0x5A, 1⟩]
  | incb => [⟨.inherent, 0x5C, 1⟩]
  | tstb => [⟨.inherent, 0x5D, 1⟩]
  | clrb => [⟨.inherent, 0x5F, 1⟩]
  | neg => [⟨.direct, 0x00, 2⟩, ⟨.indexed, 0x60, 2⟩, ⟨.extended, 0x70, 3⟩]
  | com => [⟨.direct, 0x03, 2⟩, ⟨.indexed, 0x63, 2⟩, ⟨.extended, 0x73, 3⟩]
  | lsr => [⟨.direct, 0x04, 2⟩, ⟨.indexed, 0x64, 2⟩, ⟨.extended, 0x74, 3⟩]
  | ror => [⟨.direct, 0x06, 2⟩, ⟨.indexed, 0x66, 2⟩, ⟨.extended, 0x76, 3⟩]
  | asr => [⟨.direct, 0x07, 2⟩, ⟨.indexed, 0x67, 2⟩, ⟨.extended, 0x77, 3⟩]
  | asl => [⟨.direct, 0x08, 2⟩, ⟨.indexed, 0x68, 2⟩, ⟨.extended, 0x78, 3⟩]
  | lsl => [⟨.direct, 0x08, 2⟩, ⟨.indexed, 0x68, 2⟩, ⟨.extended, 0x78, 3⟩]
  | rol => [⟨.direct, 0x09, 2⟩, ⟨.indexed, 0x69, 2⟩, ⟨.extended, 0x79, 3⟩]
  | dec => [⟨.direct, 0x0A, 2⟩, ⟨.indexed, 0x6A, 2⟩, ⟨.extended, 0x7A, 3⟩]
  | inc => [⟨.direct, 0x0C, 2⟩, ⟨.indexed, 0x6C, 2⟩, ⟨.extended, 0x7C, 3⟩]
  | tst => [⟨.direct, 0x0D, 2⟩, ⟨.indexed, 0x6D, 2⟩, ⟨.extended, 0x7D, 3⟩]
  | jmp => [⟨.direct, 0x0E, 2⟩, ⟨.indexed, 0x6E, 2⟩, ⟨.extended, 0x7E, 3⟩]
  | clr => [⟨.direct, 0x0F, 2⟩, ⟨.indexed, 0x6F, 2⟩, ⟨.extended, 0x7F, 3⟩]
  | orcc => [⟨.immediate, 0x1A, 2⟩]
  | andcc => [⟨.immediate, 0x1C, 2⟩]
  | cwai => [⟨.immediate, 0x3C, 2⟩]
  | exg => [⟨.immediate, 0x1E, 2⟩]
  | tfr => [⟨.immediate, 0x1F, 2⟩]
  | pshs => [⟨.immediate, 0x34, 2⟩]
  | puls => [⟨.immediate, 0x35, 2⟩]
  | pshu => [⟨.immediate, 0x36, 2⟩]
  | pulu => [⟨.immediate, 0x37, 2⟩]
  | bra => [⟨.relative, 0x20, 2⟩]
  | brn => [⟨.relative, 0x21, 2⟩]
  | bhi => [⟨.relative, 0x22, 2⟩]
  | bls => [⟨.relative, 0x23, 2⟩]
  | bcc => [⟨.relative, 0x24, 2⟩]
  | bhs => [⟨.relative, 0x24, 2⟩]
  | bcs => [⟨.relative, 0x25, 2⟩]
  | blo => [⟨.relative, 0x25, 2⟩]
  | bne => [⟨.relative, 0x26, 2⟩]
  | beq => [⟨.relative, 0x27, 2⟩]
  | bvc => [⟨.relative, 0x28, 2⟩]
  | bvs => [⟨.relative, 0x29, 2⟩]
  | bpl => [⟨.relative, 0x2A, 2⟩]
  | bmi => [⟨.relative, 0x2B, 2⟩]
  | bge => [⟨.relative, 0x2C, 2⟩]
  | blt => [⟨.relative, 0x2D, 2⟩]
  | bgt => [⟨.relative, 0x2E, 2⟩]
  | ble => [⟨.relative, 0x2F, 2⟩]
  | bsr => [⟨.relative, 0x8D, 2⟩]
  | lbra => [⟨.relative, 0x16, 3⟩]
  | lbsr => [⟨.relative, 0x17, 3⟩]
  | lbrn => [⟨.relative, 0x1021, 4⟩]
  | lbhi => [⟨.relative, 0x1022, 4⟩]
  | lbls => [⟨.relative, 0x1023, 4⟩]
  | lbcc => [⟨.relative, 0x1024, 4⟩]
  | lbhs => [⟨.relative, 0x1024, 4⟩]
  | lbcs => [⟨.relative, 0x1025, 4⟩]
  | lblo => [⟨.relative, 0x1025, 4⟩]
  | lbne => [⟨.relative, 0x1026, 4⟩]
  | lbeq => [⟨.relative, 0x1027, 4⟩]
  | lbvc => [⟨.relative, 0x1028, 4⟩]
  | lbvs => [⟨.relative, 0x1029, 4⟩]
  | lbpl => [⟨.relative, 0x102A, 4⟩]
  | lbmi => [⟨.relative, 0x102B, 4⟩]
  | lbge => [⟨.relative, 0x102C, 4⟩]
  | lblt => [⟨.relative, 0x102D, 4⟩]
  | lbgt => [⟨.relative, 0x102E, 4⟩]
  | lble => [⟨.relative, 0x102F, 4⟩]
  | leax => [⟨.indexed, 0x30, 2⟩]
  | leay => [⟨.indexed, 0x31, 2⟩]
  | leas => [⟨.indexed, 0x32, 2⟩]
  | leau => [⟨.indexed, 0x33, 2⟩]
  | suba => [⟨.immediate, 0x80, 2⟩, ⟨.direct, 0x90, 2⟩, ⟨.indexed, 0xA0, 2⟩, ⟨.extended, 0xB0, 3⟩]
  | cmpa => [⟨.immediate, 0x81, 2⟩, ⟨.direct, 0x91, 2⟩, ⟨.indexed, 0xA1, 2⟩, ⟨.extended, 0xB1, 3⟩]
  | sbca => [⟨.immediate, 0x82, 2⟩, ⟨.direct, 0x92, 2⟩, ⟨.indexed, 0xA2, 2⟩, ⟨.extended, 0xB2, 3⟩]
  | subd => [⟨.immediate, 0x83, 3⟩, ⟨.direct, 0x93, 2⟩, ⟨.indexed, 0xA3, 2⟩, ⟨.extended, 0xB3, 3⟩]
  | anda => [⟨.immediate, 0x84, 2⟩, ⟨.direct, 0x94, 2⟩, ⟨.indexed, 0xA4, 2⟩, ⟨.extended, 0xB4, 3⟩]
  | bita => [⟨.immediate, 0x85, 2⟩, ⟨.direct, 0x95, 2⟩, ⟨.indexed, 0xA5, 2⟩, ⟨.extended, 0xB5, 3⟩]
  | lda => [⟨.immediate, 0x86, 2⟩, ⟨.direct, 0x96, 2⟩, ⟨.indexed, 0xA6, 2⟩, ⟨.extended, 0xB6, 3⟩]
  | sta => [⟨.direct, 0x97, 2⟩, ⟨.indexed, 0xA7, 2⟩, ⟨.extended, 0xB7, 3⟩]
  | eora => [⟨.immediate, 0x88, 2⟩, ⟨.direct, 0x98, 2⟩, ⟨.indexed, 0xA8, 2⟩, ⟨.extended, 0xB8, 3⟩]
  | adca => [⟨.immediate, 0x89, 2⟩, ⟨.direct, 0x99, 2⟩, ⟨.indexed, 0xA9, 2⟩, ⟨.extended, 0xB9, 3⟩]
  | ora => [⟨.immediate, 0x8A, 2⟩, ⟨.direct, 0x9A, 2⟩, ⟨.indexed, 0xAA, 2⟩, ⟨.extended, 0xBA, 3⟩]
  | adda => [⟨.immediate, 0x8B, 2⟩, ⟨.direct, 0x9B, 2⟩, ⟨.indexed, 0xAB, 2⟩, ⟨.extended, 0xBB, 3⟩]
  | cmpx => [⟨.immediate, 0x8C, 3⟩, ⟨.direct, 0x9C, 2⟩, ⟨.indexed, 0xAC, 2⟩, ⟨.extended, 0xBC, 3⟩]
  | jsr => [⟨.direct, 0x9D, 2⟩, ⟨.indexed, 0xAD, 2⟩, ⟨.extended, 0xBD, 3⟩]
  | ldx => [⟨.immediate, 0x8E, 3⟩, ⟨.direct, 0x9E, 2⟩, ⟨.indexed, 0xAE, 2⟩, ⟨.extended, 0xBE, 3⟩]
  | stx => [⟨.direct, 0x9F, 2⟩, ⟨.indexed, 0xAF, 2⟩, ⟨.extended, 0xBF, 3⟩]
  | subb => [⟨.immediate, 0xC0, 2⟩, ⟨.direct, 0xD0, 2⟩, ⟨.indexed, 0xE0, 2⟩, ⟨.extended, 0xF0, 3⟩]
  | cmpb => [⟨.immediate, 0xC1, 2⟩, ⟨.direct, 0xD1, 2⟩, ⟨.indexed, 0xE1, 2⟩, ⟨.extended, 0xF1, 3⟩]
  | sbcb => [⟨.immediate, 0xC2, 2⟩, ⟨.direct, 0xD2, 2⟩, ⟨.indexed, 0xE2, 2⟩, ⟨.extended, 0xF2, 3⟩]
  | addd => [⟨.immediate, 0xC3, 3⟩, ⟨.direct, 0xD3, 2⟩, ⟨.indexed, 0xE3, 2⟩, ⟨.extended, 0xF3, 3⟩]
  | andb => [⟨.immediate, 0xC4, 2⟩, ⟨.direct, 0xD4, 2⟩, ⟨.indexed, 0xE4, 2⟩, ⟨.extended, 0xF4, 3⟩]
  | bitb => [⟨.immediate, 0xC5, 2⟩, ⟨.direct, 0xD5, 2⟩, ⟨.indexed, 0xE5, 2⟩, ⟨.extended, 0xF5, 3⟩]
  | ldb => [⟨.immediate, 0xC6, 2⟩, ⟨.direct, 0xD6, 2⟩, ⟨.indexed, 0xE6, 2⟩, ⟨.extended, 0xF6, 3⟩]
  | stb => [⟨.direct, 0xD7, 2⟩, ⟨.indexed, 0xE7, 2⟩, ⟨.extended, 0xF7, 3⟩]
  | eorb => [⟨.immediate, 0xC8, 2⟩, ⟨.direct, 0xD8, 2⟩, ⟨.indexed, 0xE8, 2⟩, ⟨.extended, 0xF8, 3⟩]
  | adcb => [⟨.immediate, 0xC9, 2⟩, ⟨.direct, 0xD9, 2⟩, ⟨.indexed, 0xE9, 2⟩, ⟨.extended, 0xF9, 3⟩]
  | orb => [⟨.immediate, 0xCA, 2⟩, ⟨.direct, 0xDA, 2⟩, ⟨.indexed, 0xEA, 2⟩, ⟨.extended, 0xFA, 3⟩]
  | addb => [⟨.immediate, 0xCB, 2⟩, ⟨.direct, 0xDB, 2⟩, ⟨.indexed, 0xEB, 2⟩, ⟨.extended, 0xFB, 3⟩]
  | ldd => [⟨.immediate, 0xCC, 3⟩, ⟨.direct, 0xDC, 2⟩, ⟨.indexed, 0xEC, 2⟩, ⟨.extended, 0xFC, 3⟩]
  | std => [⟨.direct, 0xDD, 2⟩, ⟨.indexed, 0xED, 2⟩, ⟨.extended, 0xFD, 3⟩]
  | ldu => [⟨.immediate, 0xCE, 3⟩, ⟨.direct, 0xDE, 2⟩, ⟨.indexed, 0xEE, 2⟩, ⟨.extended, 0xFE, 3⟩]
  | stu => [⟨.direct, 0xDF, 2⟩, ⟨.indexed, 0xEF, 2⟩, ⟨.extended, 0xFF, 3⟩]
  | cmpd => [⟨.immediate, 0x1083, 4⟩, ⟨.direct, 0x1093, 3⟩, ⟨.indexed, 0x10A3, 3⟩, ⟨.extended, 0x10B3, 4⟩]
  | cmpy => [⟨.immediate, 0x108C, 4⟩, ⟨.direct, 0x109C, 3⟩, ⟨.indexed, 0x10AC, 3⟩, ⟨.extended, 0x10BC, 4⟩]
  | ldy => [⟨.immediate, 0x108E, 4⟩, ⟨.direct, 0x109E, 3⟩, ⟨.indexed, 0x10AE, 3⟩, ⟨.extended, 0x10BE, 4⟩]
  | sty => [⟨.direct, 0x109F, 3⟩, ⟨.indexed, 0x10AF, 3⟩, ⟨.extended, 0x10BF, 4⟩]
  | lds => [⟨.immediate, 0x10CE, 4⟩, ⟨.direct, 0x10DE, 3⟩, ⟨.indexed, 0x10EE, 3⟩, ⟨.extended, 0x10FE, 4⟩]
  | sts => [⟨.direct, 0x10DF, 3⟩, ⟨.indexed, 0x10EF, 3⟩, ⟨.extended, 0x10FF, 4⟩]
  | cmpu => [⟨.immediate, 0x1183, 4⟩, ⟨.direct, 0x1193, 3⟩, ⟨.indexed, 0x11A3, 3⟩, ⟨.extended, 0x11B3, 4⟩]
  | cmps => [⟨.immediate, 0x118C, 4⟩, ⟨.direct, 0x119C, 3⟩, ⟨.indexed, 0x11AC, 3⟩, ⟨.extended, 0x11BC, 4⟩]

/-- The form of a mnemonic for an addressing mode. -/
def form? (m : Mnemonic) (mode : Mode) : Option Form :=
  m.forms.find? (·.mode = mode)

end Mnemonic

end Mc6809
