import Prisma.Decoder.Basic

-- The instruction format of x86-64 in 64-bit mode, independent of the decoder: prefixes, opcode,
-- ModR/M, SIB, displacement and immediate.

namespace Prisma.Decoder

section RmField

def modrmAt (bytes : List U8) (offset : Nat) : Option ModRm :=
  bytes[offset]?.map ModRm.ofByte

-- There is a SIB byte only for a memory operand with rm = 4.
def sibLength (modrm : ModRm) : Nat :=
  if modrm.mod ≠ 3 ∧ modrm.rm = 4 then 1 else 0

-- `base` is the base field of a SIB byte behind ModR/M.
def dispLength (modrm : ModRm) (base : Option (BitVec 3)) : Nat :=
  if modrm.mod = 0 then
    if modrm.rm = 5 ∨ (modrm.rm = 4 ∧ base = some 5) then 4 else 0
  else if modrm.mod = 1 then 1
  else if modrm.mod = 2 then 4
  else 0

-- The bytes of ModR/M, SIB and displacement of the ModR/M byte `modrm` at `offset`.
def rmLength (modrm : ModRm) (bytes : List U8) (offset : Nat) : Nat :=
  1 + sibLength modrm + dispLength modrm (bytes[offset + 1]?.map fun b => (Sib.ofByte b).base)

def rmLengthAt (bytes : List U8) (offset : Nat) : Nat :=
  match modrmAt bytes offset with
  | some modrm => rmLength modrm bytes offset
  | none => 0

end RmField

section Format

-- The immediate behind the operand, in the letters of the opcode maps: `z` has 16 or 32 bits and `v`
-- also 64, by the operand size; `moffs` is an absolute address, `wb` the two immediates of ENTER, and
-- `testB` and `testZ` belong to the TEST forms of group 3 only.
inductive Immediate
  | none | b | w | z | v | wb | moffs | rel8 | rel32 | testB | testZ
  deriving DecidableEq, Repr

structure Format where
  modrm : Bool
  imm : Immediate
  deriving DecidableEq, Repr

-- `wide` is REX.W, `operand` and `address` stand for the prefixes 66 and 67, and `reg` is the reg
-- field of ModR/M.
def Immediate.length (wide operand address : Bool) (reg : BitVec 3) : Immediate → Nat
  | none => 0
  | b | rel8 => 1
  | w => 2
  | z => if !wide && operand then 2 else 4
  | v => if wide then 8 else if operand then 2 else 4
  | wb => 3
  | moffs => if address then 4 else 8
  | rel32 => 4
  | testB => if reg = 0 ∨ reg = 1 then 1 else 0
  | testZ => if reg = 0 ∨ reg = 1 then (if !wide && operand then 2 else 4) else 0

def plain : Option Format := some ⟨false, .none⟩
def withImm (imm : Immediate) : Option Format := some ⟨false, imm⟩
def withRm (imm : Immediate) : Option Format := some ⟨true, imm⟩

-- The one-byte opcodes of the general-purpose instructions in 64-bit mode.
def oneByteFormat (opcode : U8) : Option Format :=
  if opcode < 0x40 then
    match opcode &&& 7 with
    | 0 | 1 | 2 | 3 => withRm .none
    | 4 => withImm .b
    | 5 => withImm .z
    | _ => none
  else if opcode < 0x50 then none
  else if opcode < 0x60 then plain
  else if 0x70 ≤ opcode ∧ opcode < 0x80 then withImm .rel8
  else if 0x84 ≤ opcode ∧ opcode < 0x8C then withRm .none
  else if 0x90 ≤ opcode ∧ opcode < 0xA0 then if opcode = 0x9A then none else plain
  else if 0xA0 ≤ opcode ∧ opcode < 0xA4 then withImm .moffs
  else if 0xA4 ≤ opcode ∧ opcode < 0xB0 then
    if opcode = 0xA8 then withImm .b else if opcode = 0xA9 then withImm .z else plain
  else if 0xB0 ≤ opcode ∧ opcode < 0xB8 then withImm .b
  else if 0xB8 ≤ opcode ∧ opcode < 0xC0 then withImm .v
  else if 0xD0 ≤ opcode ∧ opcode < 0xD4 then withRm .none
  else if 0xE0 ≤ opcode ∧ opcode < 0xE4 then withImm .rel8
  else if 0xE4 ≤ opcode ∧ opcode < 0xE8 then withImm .b
  else if 0xEC ≤ opcode ∧ opcode < 0xF0 then plain
  else
    match opcode with
    | 0x63 | 0x8D | 0x8F | 0xD9 | 0xDB | 0xFE | 0xFF => withRm .none
    | 0x68 => withImm .z
    | 0x69 => withRm .z
    | 0x6A => withImm .b
    | 0x6B => withRm .b
    | 0x80 | 0x83 | 0xC0 | 0xC1 | 0xC6 => withRm .b
    | 0x81 | 0xC7 => withRm .z
    | 0xC2 => withImm .w
    | 0xC8 => withImm .wb
    | 0xCD => withImm .b
    | 0xC3 | 0xC9 | 0xCC | 0xCF | 0xD7 | 0xF1 | 0xF4 | 0xF5 => plain
    | 0xF8 | 0xF9 | 0xFA | 0xFB | 0xFC | 0xFD => plain
    | 0xE8 | 0xE9 => withImm .rel32
    | 0xEB => withImm .rel8
    | 0xF6 => withRm .testB
    | 0xF7 => withRm .testZ
    | _ => none

-- The opcodes behind 0F.
def twoByteFormat (opcode : U8) : Option Format :=
  if 0x40 ≤ opcode ∧ opcode < 0x50 then withRm .none
  else if 0x80 ≤ opcode ∧ opcode < 0x90 then withImm .rel32
  else if 0x90 ≤ opcode ∧ opcode < 0xA0 then withRm .none
  else if 0xC8 ≤ opcode ∧ opcode < 0xD0 then plain
  else if 0x20 ≤ opcode ∧ opcode < 0x24 then withRm .none
  else if 0x30 ≤ opcode ∧ opcode < 0x38 then if opcode = 0x36 then none else plain
  else
    match opcode with
    | 0x00 | 0x01 | 0x0D | 0x18 | 0x1E | 0x1F | 0x78 | 0x79 | 0xAE | 0xAF => withRm .none
    | 0xB0 | 0xB1 | 0xB6 | 0xB7 | 0xB8 | 0xB9 | 0xBC | 0xBD | 0xBE | 0xBF => withRm .none
    | 0xC0 | 0xC1 | 0xC3 | 0xC7 | 0xFF => withRm .none
    | 0xBA => withRm .b
    | 0x05 | 0x06 | 0x07 | 0x08 | 0x09 | 0x0B | 0x0E | 0x77 | 0xA2 | 0xAA => plain
    | _ => none

-- MOVBE and CRC32, behind 0F 38.
def threeByteFormat (opcode : U8) : Option Format :=
  if opcode = 0xF0 ∨ opcode = 0xF1 then withRm .none else none

-- ANDN, the BLS group and BEXTR, behind a VEX prefix with the map 0F 38.
def vexFormat (opcode : U8) : Option Format :=
  if opcode = 0xF2 ∨ opcode = 0xF3 ∨ opcode = 0xF7 then withRm .none else none

end Format

section Layout

def isLegacyPrefix (b : U8) : Bool :=
  b ∈ [0x26, 0x2E, 0x36, 0x3E, 0x64, 0x65, 0x66, 0x67, 0xF0, 0xF2, 0xF3]

-- A byte that is neither a prefix nor the first byte of one.
def isOpcodeByte (b : U8) : Bool :=
  !isLegacyPrefix b && b.extractLsb' 4 4 ≠ 4 && b ≠ 0xC4 && b ≠ 0xC5

def segmentOf (b : U8) : Option SegmentReg :=
  match b with
  | 0x26 => some .es
  | 0x2E => some .cs
  | 0x36 => some .ss
  | 0x3E => some .ds
  | 0x64 => some .fs
  | 0x65 => some .gs
  | _ => none

structure Prefixes where
  count : Nat := 0
  operandSize : Bool := false
  addressSize : Bool := false
  lock : Bool := false
  rep : Option U8 := none
  segment : Option SegmentReg := none
  rex : RexPrefix := {}
  vexMap : Option (BitVec 5) := none
  deriving DecidableEq, Repr

-- Legacy prefixes in any order, and then at most one REX or VEX prefix directly before the opcode.
-- Of the segments and of the two REP prefixes the last one counts.
def Prefixes.scan (p : Prefixes) : List U8 → Prefixes
  | [] => p
  | b :: rest =>
    if isLegacyPrefix b then
      scan { p with
        count := p.count + 1
        operandSize := p.operandSize || b = 0x66
        addressSize := p.addressSize || b = 0x67
        lock := p.lock || b = 0xF0
        rep := if b = 0xF2 ∨ b = 0xF3 then some b else p.rep
        segment := (segmentOf b).or p.segment } rest
    else if b.extractLsb' 4 4 = 4 then
      { p with count := p.count + 1, rex := .ofByte b }
    else if b = 0xC5 then
      { p with count := p.count + 2, vexMap := some 1 }
    else if b = 0xC4 then
      match rest with
      | b2 :: _ :: _ => { p with count := p.count + 3, vexMap := some (b2.extractLsb' 0 5) }
      | _ => p
    else p

-- The prefixes without VEX.
def Prefixes.set (p : Prefixes) : PrefixSet where
  rep := p.rep
  operandOverride := p.operandSize
  addrOverride := p.addressSize
  lock := p.lock
  segment := p.segment
  rex := p.rex

abbrev prefixesAt (bytes : List U8) (offset : Nat) : Prefixes :=
  Prefixes.scan {} (bytes.drop offset)

-- The number of opcode bytes at `cursor`, and the format.
def opcodeFormat (vexMap : Option (BitVec 5)) (bytes : List U8) (cursor : Nat) :
    Option (Nat × Format) := do
  let opcode ← bytes[cursor]?
  match vexMap with
  | some map => if map = 2 then (1, ·) <$> vexFormat opcode else none
  | none =>
    if opcode = 0x0F then
      let opcode2 ← bytes[cursor + 1]?
      if opcode2 = 0x38 then
        let opcode3 ← bytes[cursor + 2]?
        (3, ·) <$> threeByteFormat opcode3
      else (2, ·) <$> twoByteFormat opcode2
    else (1, ·) <$> oneByteFormat opcode

-- The number of bytes of each part of an instruction.
structure Layout where
  prefixes : Nat
  opcode : Nat
  modrm : Nat
  sib : Nat
  disp : Nat
  imm : Nat
  deriving DecidableEq, Repr

namespace Layout

variable (l : Layout)

-- The immediate stands behind the displacement.
def immOffset : Nat :=
  l.prefixes + l.opcode + l.modrm + l.sib + l.disp

def length : Nat :=
  l.immOffset + l.imm

end Layout

-- The layout of the general-purpose instruction at `offset`, if there is one.
def layout (bytes : List U8) (offset : Nat) : Option Layout := do
  let p := prefixesAt bytes offset
  let (opcode, format) ← opcodeFormat p.vexMap bytes (offset + p.count)
  if format.modrm then
    let modrm ← modrmAt bytes (offset + p.count + opcode)
    return {
      prefixes := p.count
      opcode
      modrm := 1
      sib := sibLength modrm
      disp := dispLength modrm
        (bytes[offset + p.count + opcode + 1]?.map fun b => (Sib.ofByte b).base)
      imm := format.imm.length p.rex.w p.operandSize p.addressSize modrm.reg }
  else
    return {
      prefixes := p.count
      opcode
      modrm := 0
      sib := 0
      disp := 0
      imm := format.imm.length p.rex.w p.operandSize p.addressSize 0 }

end Layout

end Prisma.Decoder
