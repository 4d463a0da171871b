import Prisma.IR.Refs
import Prisma.Lib.Emission

namespace Prisma.Decoder

inductive DecodeError
  | truncated
  | unsupportedOpcode (opcode : U8)
  | invalidModRm (offset : Nat)
  | invalidSib (offset : Nat)
  | invalidLock
  | invalidVex
  deriving DecidableEq, Repr

-- Result of decoding a single x86 instruction.
structure Decoded where
  stmts : List Stmt
  bytesConsumed : Nat

-- The decoder appends to the statements of the instruction and returns early on an error.
abbrev Emit := Emission.Emitter DecodeError Stmt

abbrev Parse := Except DecodeError

-- Refs are numbered by the current number of statements.
def allocRef : Emit Ref := Emission.fresh

def push (result : Option Ref) (op : Op) : Emit Unit := Emission.push ⟨result, op⟩

-- A statement without a result.
def pushStmt (op : Op) : Emit Unit := push none op

-- `alloc_ref` followed by the statement that defines the ref.
def pushRef (op : Op) : Emit Ref := do
  let r ← allocRef
  push (some r) op
  return r

-- `if condition { return Err(error) }`
def rejectIf (condition : Bool) (error : DecodeError) : Parse Unit :=
  if condition then .error error else .ok ()

section Bytes

-- `bytes.get(offset)`
def byteAt (bytes : List U8) (offset : Nat) : Parse U8 :=
  match bytes[offset]? with
  | some b => .ok b
  | none => .error .truncated

-- `bytes.get(offset..offset + n)`
def bytesAt (bytes : List U8) (offset n : Nat) : Parse (List U8) :=
  if offset + n ≤ bytes.length then .ok ((bytes.drop offset).take n) else .error .truncated

-- Little-endian value, as in `from_le_bytes`.
def leValue (w : Nat) : List U8 → BitVec w
  | [] => 0
  | b :: bs => b.setWidth w ||| (leValue w bs <<< 8)

def readImm (bytes : List U8) (offset n : Nat) : Parse U64 := do
  return leValue 64 (← bytesAt bytes offset n)

def readDisp8 (bytes : List U8) (offset : Nat) : Parse U8 :=
  byteAt bytes offset

def readDisp32 (bytes : List U8) (offset : Nat) : Parse U64 := do
  return (leValue 32 (← bytesAt bytes offset 4)).signExtend 64

end Bytes

section Prefixes

structure RexPrefix where
  present : Bool := false
  -- 64-bit operand size
  w : Bool := false
  -- extends the reg field
  r : Bool := false
  -- extends the SIB index field
  x : Bool := false
  -- extends the rm or base field
  b : Bool := false
  deriving DecidableEq, Repr

-- The fields `r`, `x`, `b` and `vvvv` are stored inverted in the encoding and decoded here.
structure VexPrefix where
  w : Bool
  r : Bool
  x : Bool
  b : Bool
  -- 256-bit
  l : Bool
  vvvv : BitVec 4
  pp : BitVec 2
  mmmm : BitVec 5
  deriving DecidableEq, Repr

structure PrefixSet where
  rep : Option U8 := none
  operandOverride : Bool := false
  addrOverride : Bool := false
  lock : Bool := false
  segment : Option SegmentReg := none
  rex : RexPrefix := {}
  vex : Option VexPrefix := none
  deriving DecidableEq, Repr

def RexPrefix.ofByte (b : U8) : RexPrefix where
  present := true
  w := b.getLsbD 3
  r := b.getLsbD 2
  x := b.getLsbD 1
  b := b.getLsbD 0

-- The two-byte VEX prefix C5.
def VexPrefix.ofByte (b2 : U8) : VexPrefix where
  w := false
  r := !b2.getLsbD 7
  x := false
  b := false
  l := b2.getLsbD 2
  vvvv := (~~~b2).extractLsb' 3 4
  pp := b2.extractLsb' 0 2
  mmmm := 1

-- The three-byte VEX prefix C4.
def VexPrefix.ofBytes (b2 b3 : U8) : VexPrefix where
  w := b3.getLsbD 7
  r := !b2.getLsbD 7
  x := !b2.getLsbD 6
  b := !b2.getLsbD 5
  l := b3.getLsbD 2
  vvvv := (~~~b3).extractLsb' 3 4
  pp := b3.extractLsb' 0 2
  mmmm := b2.extractLsb' 0 5

namespace PrefixSet

-- The effect of a prefix byte other than VEX, and `none` for a byte that is not a prefix.
def withByte (p : PrefixSet) (b : U8) : Option PrefixSet :=
  if b.extractLsb' 4 4 = 4 then
    some { p with rex := .ofByte b }
  else
    match b with
    | 0xF0 => some { p with lock := true }
    | 0xF2 => some { p with rep := some 0xF2 }
    | 0xF3 => some { p with rep := some 0xF3 }
    | 0x66 => some { p with operandOverride := true }
    | 0x67 => some { p with addrOverride := true }
    | 0x26 => some { p with segment := some .es }
    | 0x2E => some { p with segment := some .cs }
    | 0x36 => some { p with segment := some .ss }
    | 0x3E => some { p with segment := some .ds }
    | 0x64 => some { p with segment := some .fs }
    | 0x65 => some { p with segment := some .gs }
    | _ => none

-- The loop of `parse_prefixes` on the bytes from `cursor` on.
def parseFrom (p : PrefixSet) (cursor : Nat) : List U8 → PrefixSet × Nat
  | [] => (p, cursor)
  | b :: rest =>
    if b = 0xC5 then
      match rest with
      | [] => (p, cursor + 1)
      | b2 :: _ => ({ p with vex := some (.ofByte b2) }, cursor + 2)
    else if b = 0xC4 then
      match rest with
      | [] => (p, cursor + 1)
      | [_] => (p, cursor + 2)
      | b2 :: b3 :: _ => ({ p with vex := some (.ofBytes b2 b3) }, cursor + 3)
    else
      match p.withByte b with
      | some p => p.parseFrom (cursor + 1) rest
      | none => (p, cursor)

end PrefixSet

-- The prefix set and the offset of the first byte that is not a prefix.
def parsePrefixes (bytes : List U8) (start : Nat) : PrefixSet × Nat :=
  PrefixSet.parseFrom {} start (bytes.drop start)

namespace PrefixSet

variable (p : PrefixSet)

-- The prefix tests that most decoders combine.
def rexLockSegment : Bool :=
  p.rex.present || p.lock || p.segment.isSome

def any : Bool :=
  p.rex.present || p.lock || p.segment.isSome || p.rep.isSome || p.operandOverride || p.addrOverride

end PrefixSet

def operandSize (prefixes : PrefixSet) : OpSize :=
  if prefixes.rex.w then .i64
  else if prefixes.operandOverride then .i16
  else .i32

end Prefixes

section ModRm

-- The fields of a ModR/M byte.
structure ModRm where
  mod : BitVec 2
  reg : BitVec 3
  rm : BitVec 3
  deriving DecidableEq, Repr

-- The fields of a SIB byte. The scale is kept as the shift amount, the source stores `1 << scale`.
structure Sib where
  scale : BitVec 2
  index : BitVec 3
  base : BitVec 3
  deriving DecidableEq, Repr

def ModRm.ofByte (b : U8) : ModRm where
  mod := b.extractLsb' 6 2
  reg := b.extractLsb' 3 3
  rm := b.extractLsb' 0 3

def Sib.ofByte (b : U8) : Sib where
  scale := b.extractLsb' 6 2
  index := b.extractLsb' 3 3
  base := b.extractLsb' 0 3

-- The offset behind the byte, which the source also returns, is not used by any caller.
def parseModrm (bytes : List U8) (offset : Nat) : Parse ModRm := do
  return .ofByte (← byteAt bytes offset)

def parseSib (bytes : List U8) (offset : Nat) : Parse Sib := do
  return .ofByte (← byteAt bytes offset)

def parseOptionalSib (modrm : ModRm) (bytes : List U8) (offset : Nat) : Parse (Option Sib) :=
  if modrm.mod ≠ 3 ∧ modrm.rm = 4 then some <$> parseSib bytes offset else return none

-- The effective address from ModR/M, SIB and displacement. The direct register form of the source
-- is never built.
inductive AddrMode
  | baseDisp (base : Gpr) (disp : U64)
  | indexed (base : Option Gpr) (index : Gpr) (scale : BitVec 2) (disp : U64)
  | ripRelative (disp : U64)
  | absolute (disp : U64)
  deriving DecidableEq, Repr

def gprFromIndex (reg : BitVec 4) : Gpr :=
  match reg with
  | 0 => .rax
  | 1 => .rcx
  | 2 => .rdx
  | 3 => .rbx
  | 4 => .rsp
  | 5 => .rbp
  | 6 => .rsi
  | 7 => .rdi
  | 8 => .r8
  | 9 => .r9
  | 10 => .r10
  | 11 => .r11
  | 12 => .r12
  | 13 => .r13
  | 14 => .r14
  | _ => .r15

-- `(field & 7) | (if extension { 8 } else { 0 })`
def extendIndex (extension : Bool) (field : BitVec 3) : BitVec 4 :=
  field.setWidth 4 ||| (if extension then 8 else 0)

def gprFromRm (rm : BitVec 3) (prefixes : PrefixSet) : Gpr :=
  gprFromIndex (extendIndex prefixes.rex.b rm)

def gprFromSibBase (base : BitVec 3) (prefixes : PrefixSet) : Gpr :=
  gprFromIndex (extendIndex prefixes.rex.b base)

def gprFromSibIndex (index : BitVec 3) (prefixes : PrefixSet) : Gpr :=
  gprFromIndex (extendIndex prefixes.rex.x index)

-- An index field of 4 without REX.X means that there is no index register.
def decodeSibAddr (sib : Sib) (prefixes : PrefixSet) (base : Option Gpr) (disp : U64) : AddrMode :=
  if sib.index ≠ 4 ∨ prefixes.rex.x then
    .indexed base (gprFromSibIndex sib.index prefixes) sib.scale disp
  else
    match base with
    | none => .absolute disp
    | some base => .baseDisp base disp

-- The offset behind the displacement, which the source also returns, is not used by any caller.
def decodeAddr (modrm : ModRm) (sib : Option Sib) (prefixes : PrefixSet) (bytes : List U8)
    (offset : Nat) : Parse AddrMode :=
  if modrm.mod = 3 then
    .error (.invalidModRm offset)
  else if modrm.rm = 4 then
    if modrm.mod = 0 then
      match sib with
      | none => .error (.invalidSib offset)
      | some sib =>
        if sib.base = 5 then do
          let disp ← readDisp32 bytes offset
          return decodeSibAddr sib prefixes none disp
        else
          return decodeSibAddr sib prefixes (some (gprFromSibBase sib.base prefixes)) 0
    else do
      let disp ←
        if modrm.mod = 1 then (·.signExtend 64) <$> readDisp8 bytes offset
        else readDisp32 bytes offset
      match sib with
      | none => .error (.invalidSib offset)
      | some sib =>
        return decodeSibAddr sib prefixes (some (gprFromSibBase sib.base prefixes)) disp
  else if modrm.mod = 0 then
    if modrm.rm = 5 then do
      let disp ← readDisp32 bytes offset
      return .ripRelative disp
    else
      return .baseDisp (gprFromRm modrm.rm prefixes) 0
  else do
    let disp ←
      if modrm.mod = 1 then (·.signExtend 64) <$> readDisp8 bytes offset
      else readDisp32 bytes offset
    return .baseDisp (gprFromRm modrm.rm prefixes) disp

end ModRm

section Registers

def mapReg (idx : BitVec 3) (rex : RexPrefix) (isRegField : Bool) : Gpr :=
  match idx, if isRegField then rex.r else rex.b with
  | 0, false => .rax
  | 0, true => .r8
  | 1, false => .rcx
  | 1, true => .r9
  | 2, false => .rdx
  | 2, true => .r10
  | 3, false => .rbx
  | 3, true => .r11
  | 4, false => .rsp
  | 4, true => .r12
  | 5, false => .rbp
  | 5, true => .r13
  | 6, false => .rsi
  | 6, true => .r14
  | _, false => .rdi
  | _, true => .r15

def mapRegRaw (idx : BitVec 3) (rex : RexPrefix) : Gpr :=
  match idx with
  | 0 => if rex.b then .r8 else .rax
  | 1 => if rex.b then .r9 else .rcx
  | 2 => if rex.b then .r10 else .rdx
  | 3 => if rex.b then .r11 else .rbx
  | 4 => if rex.b then .r12 else .rsp
  | 5 => if rex.b then .r13 else .rbp
  | 6 => if rex.b then .r14 else .rsi
  | _ => if rex.b then .r15 else .rdi

-- `map_reg_raw(opcode - first, rex)` for opcodes with the register in their low three bits.
def opcodeReg (opcode first : U8) (rex : RexPrefix) : Gpr :=
  mapRegRaw ((opcode - first).setWidth 3) rex

end Registers

section Address

-- The number of bytes of ModR/M, SIB and displacement at `cursor`. The test for a SIB byte looks at
-- the rm field only, so that it also counts one for a register operand with rm = 4.
def bytesForModrm (modrm : ModRm) (bytes : List U8) (cursor : Nat) : Parse Nat :=
  if modrm.rm = 4 then do
    let sib ← byteAt bytes (cursor + 1)
    return 2 + (
      if modrm.mod = 0 ∧ sib.extractLsb' 0 3 = 5 then 4
      else if modrm.mod = 1 then 1
      else if modrm.mod = 2 then 4
      else 0)
  else if modrm.mod = 0 ∧ modrm.rm = 5 then
    return 5
  else
    return 1 + (if modrm.mod = 1 then 1 else if modrm.mod = 2 then 4 else 0)

-- `disp` is a signed 64-bit number.
def addSignedDisp (base disp : U64) : U64 :=
  if 0 ≤ disp.toInt then base + disp else base - (-disp)

def emitLoadAddrReg (reg : Gpr) : Emit Ref :=
  pushRef (.loadReg reg .i64)

def emitAddrConst (value : U64) : Emit Ref :=
  pushRef (.constant value .i64)

def emitAddrBinop (op : BinOpKind) (lhs rhs : Ref) : Emit Ref :=
  pushRef (.binOp op lhs rhs .i64)

def emitAddDisp (baseRef : Ref) (disp : U64) : Emit Ref := do
  if disp = 0 then
    return baseRef
  else
    let dispRef ← emitAddrConst disp
    emitAddrBinop .add baseRef dispRef

def emitScaledIndex (index : Gpr) (scale : BitVec 2) : Emit Ref := do
  let indexRef ← emitLoadAddrReg index
  if scale = 0 then
    return indexRef
  else
    let shiftRef ← emitAddrConst (scale.setWidth 64)
    emitAddrBinop .shl indexRef shiftRef

def emitBasePlusIndex (base : Option Gpr) (scaledIndex : Ref) : Emit Ref := do
  match base with
  | none => return scaledIndex
  | some base =>
    let baseRef ← emitLoadAddrReg base
    emitAddrBinop .add baseRef scaledIndex

def emitAddrModeAt (addr : AddrMode) (ripAfter : U64) : Emit Ref := do
  match addr with
  | .baseDisp base disp =>
    let baseRef ← emitLoadAddrReg base
    emitAddDisp baseRef disp
  | .indexed base index scale disp =>
    let scaledIndex ← emitScaledIndex index scale
    let basePlusIndex ← emitBasePlusIndex base scaledIndex
    emitAddDisp basePlusIndex disp
  | .ripRelative disp => emitAddrConst (addSignedDisp ripAfter disp)
  | .absolute disp => emitAddrConst (addSignedDisp 0 disp)

-- The address of a memory operand and the number of bytes of ModR/M, SIB and displacement.
def emitAddrWithSizeAt (modrm : ModRm) (prefixes : PrefixSet) (bytes : List U8) (cursor : Nat)
    (ripAfter : U64) : Emit (Ref × Nat) := do
  let n ← bytesForModrm modrm bytes cursor
  let sib ← parseOptionalSib modrm bytes (cursor + 1)
  let dispOffset := cursor + 1 + sib.isSome.toNat
  let addr ← decodeAddr modrm sib prefixes bytes dispOffset
  let addrRef ← emitAddrModeAt addr ripAfter
  return (addrRef, n)

def emitAddrWithSize (modrm : ModRm) (prefixes : PrefixSet) (bytes : List U8) (cursor : Nat) :
    Emit (Ref × Nat) :=
  emitAddrWithSizeAt modrm prefixes bytes cursor 0

end Address

end Prisma.Decoder
