import Prisma.Decoder.Alu

namespace Prisma.Decoder

variable (prefixes : PrefixSet) (opcode : U8) (bytes : List U8) (cursor : Nat)

section Mov

def decodeMovRmRWithSize (size : OpSize) : Emit Nat := do
  let modrm ← parseModrm bytes (cursor + 1)
  let value ← pushRef (.loadReg (mapReg modrm.reg prefixes.rex true) size)
  let (dst, used) ← rmOperand modrm prefixes bytes (cursor + 1)
  dst.store value size
  return 1 + used

def decodeMovRmR : Emit Nat :=
  decodeMovRmRWithSize prefixes bytes cursor (operandSize prefixes)

def decodeMovRRmWithSize (size : OpSize) : Emit Nat := do
  let modrm ← parseModrm bytes (cursor + 1)
  let (src, used) ← loadRm modrm prefixes bytes (cursor + 1) size
  pushStmt (.storeReg (mapReg modrm.reg prefixes.rex true) src size)
  return 1 + used

def decodeMovRRm : Emit Nat :=
  decodeMovRRmWithSize prefixes bytes cursor (operandSize prefixes)

def moffsSize : Parse OpSize :=
  match opcode with
  | 0xA0 | 0xA2 => .ok .i8
  | 0xA1 | 0xA3 => .ok (operandSize prefixes)
  | _ => .error (.unsupportedOpcode opcode)

def moffsBytes : Nat :=
  if prefixes.addrOverride then 4 else 8

def emitMoffs (addr : Ref) (size : OpSize) : Emit Unit := do
  if opcode = 0xA0 ∨ opcode = 0xA1 then
    let value ← pushRef (.loadMem addr size)
    pushStmt (.storeReg .rax value size)
  else
    let value ← pushRef (.loadReg .rax size)
    pushStmt (.storeMem addr value size)

-- MOV between the accumulator and memory at an absolute address.
def decodeMovMoffs : Emit Nat := do
  rejectIf (prefixes.lock || prefixes.rep.isSome) (.unsupportedOpcode opcode)
  let size ← moffsSize prefixes opcode
  let addrValue ← readImm bytes (cursor + 1) (moffsBytes prefixes)
  let addr ← pushRef (.constant addrValue .i64)
  emitMoffs opcode addr size
  return 1 + moffsBytes prefixes

def decodeLea : Emit Nat := do
  rejectIf (prefixes.rep.isSome || prefixes.lock || prefixes.segment.isSome ||
    prefixes.operandOverride || prefixes.addrOverride) (.unsupportedOpcode 0x8D)
  let modrm ← parseModrm bytes (cursor + 1)
  rejectIf (modrm.mod = 3) (.unsupportedOpcode 0x8D)
  let (addr, used) ← emitAddrWithSize modrm prefixes bytes (cursor + 1)
  pushStmt (.storeReg (mapReg modrm.reg prefixes.rex true) addr
    (if prefixes.rex.w then .i64 else .i32))
  return 1 + used

-- `MOV r, imm`, the only form with a 64-bit immediate.
def decodeMovRi : Emit Nat := do
  let size := operandSize prefixes
  let immBytes := size.bitWidth / 8
  let imm ← readImm bytes (cursor + 1) immBytes
  let r ← pushRef (.constant imm size)
  pushStmt (.storeReg (opcodeReg opcode 0xB8 prefixes.rex) r size)
  return 1 + immBytes

def decodeMovR8I8 : Emit Nat := do
  let imm ← byteAt bytes (cursor + 1)
  let r ← pushRef (.constant (imm.setWidth 64) .i8)
  pushStmt (.storeReg (opcodeReg opcode 0xB0 prefixes.rex) r .i8)
  return 2

def movRmImmSize : OpSize :=
  if opcode = 0xC6 then .i8 else operandSize prefixes

def movRmImmBytes (size : OpSize) : Parse Nat :=
  match opcode, size with
  | 0xC6, _ => .ok 1
  | 0xC7, .i16 => .ok 2
  | 0xC7, .i32 | 0xC7, .i64 => .ok 4
  | _, _ => .error (.unsupportedOpcode opcode)

-- `MOV r/m, imm` (C6 and C7).
def decodeMovRmImm : Emit Nat := do
  rejectIf (prefixes.rep.isSome || prefixes.lock || prefixes.segment.isSome)
    (.unsupportedOpcode opcode)
  let size := movRmImmSize prefixes opcode
  let modrm ← parseModrm bytes (cursor + 1)
  rejectIf (modrm.reg ≠ 0) (.unsupportedOpcode opcode)
  let modrmBytes ← bytesForModrm modrm bytes (cursor + 1)
  let immBytes ← movRmImmBytes opcode size
  let imm ← readImm bytes (cursor + 1 + modrmBytes) immBytes
  let imm := if opcode = 0xC7 ∧ size = .i64 then signExtendImm32 imm else imm
  let value ← pushRef (.constant imm size)
  let (dst, _) ← rmOperand modrm prefixes bytes (cursor + 1)
  dst.store value size
  return 1 + modrmBytes + immBytes

end Mov

section Extend

-- MOVZX and MOVSX.
def decodeMovExtend (src : OpSize) (isSigned : Bool) : Emit Nat := do
  let size := operandSize prefixes
  let modrm ← parseModrm bytes (cursor + 1)
  let (value, used) ← loadRm modrm prefixes bytes (cursor + 1) src
  let extended ← pushRef (.extend value src size isSigned)
  pushStmt (.storeReg (mapReg modrm.reg prefixes.rex true) extended size)
  return 1 + used

def decodeMovzx (src : OpSize) : Emit Nat :=
  decodeMovExtend prefixes bytes cursor src false

def decodeMovsx (src : OpSize) : Emit Nat :=
  decodeMovExtend prefixes bytes cursor src true

def emitMovsxd (src : Ref) (dstReg : Gpr) : Emit Unit := do
  if prefixes.rex.w then
    let extended ← pushRef (.extend src .i32 .i64 true)
    pushStmt (.storeReg dstReg extended .i64)
  else
    pushStmt (.storeReg dstReg src .i32)

-- With the operand-size prefix, MOVSXD is decoded as a trap.
def decodeMovsxd : Emit Nat := do
  if prefixes.operandOverride then
    rejectIf (prefixes.rep.isSome || prefixes.lock || prefixes.segment.isSome ||
      prefixes.addrOverride || prefixes.rex.present) (.unsupportedOpcode 0x63)
    let modrm ← parseModrm bytes (cursor + 1)
    let modrmBytes ← bytesForModrm modrm bytes (cursor + 1)
    pushStmt (.trap .sigill)
    return 1 + modrmBytes
  else
    rejectIf (prefixes.rep.isSome || prefixes.lock || prefixes.segment.isSome ||
      prefixes.addrOverride) (.unsupportedOpcode 0x63)
    let modrm ← parseModrm bytes (cursor + 1)
    let (src, used) ← loadRm modrm prefixes bytes (cursor + 1) .i32
    emitMovsxd prefixes src (mapReg modrm.reg prefixes.rex true)
    return 1 + used

end Extend

section Stack

def decodePushR : Emit Nat := do
  let value ← pushRef (.loadReg (opcodeReg opcode 0x50 prefixes.rex) .i64)
  emitPush value
  return 1

def pushImmBytes : Nat :=
  if opcode = 0x6A then 1 else if prefixes.operandOverride then 2 else 4

def pushImm : Parse U64 := do
  if opcode = 0x6A then
    return (← byteAt bytes (cursor + 1)).signExtend 64
  else
    let imm ← readImm bytes (cursor + 1) (pushImmBytes prefixes opcode)
    return if pushImmBytes prefixes opcode = 4 then signExtendImm32 imm else imm

def decodePushImm : Emit Nat := do
  rejectIf prefixes.rexLockSegment (.unsupportedOpcode opcode)
  let imm ← pushImm prefixes opcode bytes cursor
  let value ← pushRef (.constant imm .i64)
  emitPush value
  return 1 + pushImmBytes prefixes opcode

def decodePopR : Emit Nat := do
  let rsp ← pushRef (.loadReg .rsp .i64)
  let value ← pushRef (.loadMem rsp .i64)
  pushStmt (.storeReg (opcodeReg opcode 0x58 prefixes.rex) value .i64)
  pushStmt (.rspAdjust 8)
  return 1

def decodePopRm : Emit Nat := do
  let modrm ← parseModrm bytes (cursor + 1)
  rejectIf (modrm.reg ≠ 0) (.unsupportedOpcode 0x8F)
  let rsp ← pushRef (.loadReg .rsp .i64)
  let value ← pushRef (.loadMem rsp .i64)
  let (dst, used) ← rmOperand modrm prefixes bytes (cursor + 1)
  dst.store value .i64
  pushStmt (.rspAdjust 8)
  return 1 + used

def decodeLeave : Emit Nat := do
  rejectIf (prefixes.rex.present || prefixes.operandOverride || prefixes.lock ||
    prefixes.segment.isSome) (.unsupportedOpcode 0xC9)
  let rbp ← pushRef (.loadReg .rbp .i64)
  pushStmt (.storeReg .rsp rbp .i64)
  let rsp ← pushRef (.loadReg .rsp .i64)
  let value ← pushRef (.loadMem rsp .i64)
  pushStmt (.storeReg .rbp value .i64)
  pushStmt (.rspAdjust 8)
  return 1

def emitAllocFrame (allocSize : U64) : Emit Unit := do
  if allocSize = 0 then
    return ()
  else
    pushStmt (.rspAdjust (-allocSize))

def decodeEnter : Emit Nat := do
  rejectIf prefixes.any (.unsupportedOpcode 0xC8)
  let allocSize ← readImm bytes (cursor + 1) 2
  let nesting ← byteAt bytes (cursor + 3)
  rejectIf (nesting ≠ 0) (.unsupportedOpcode 0xC8)
  let rbp ← pushRef (.loadReg .rbp .i64)
  pushStmt (.rspAdjust (-8))
  let rspAfterPush ← pushRef (.loadReg .rsp .i64)
  pushStmt (.storeMem rspAfterPush rbp .i64)
  pushStmt (.storeReg .rbp rspAfterPush .i64)
  emitAllocFrame allocSize
  return 4

end Stack

section FlagsImage

def decodePushfq : Emit Nat := do
  let rsp ← pushRef (.loadReg .rsp .i64)
  let eight ← pushRef (.constant 8 .i64)
  let newRsp ← pushRef (.binOp .sub rsp eight .i64)
  let rflags ← pushRef .loadRflags
  let reserved ← pushRef (.constant 2 .i64)
  let flags ← pushRef (.binOp .or rflags reserved .i64)
  pushStmt (.storeMemTSO newRsp flags .i64)
  pushStmt (.storeReg .rsp newRsp .i64)
  return 1

def decodePopfq : Emit Nat := do
  let rsp ← pushRef (.loadReg .rsp .i64)
  let flags ← pushRef (.loadMemTSO rsp .i64)
  pushStmt (.storeRflags flags)
  let eight ← pushRef (.constant 8 .i64)
  let newRsp ← pushRef (.binOp .add rsp eight .i64)
  pushStmt (.storeReg .rsp newRsp .i64)
  return 1

def decodeLahf : Emit Nat := do
  let rflags ← pushRef .loadRflags
  let lahfMask ← pushRef (.constant 0xD7 .i64)
  let flagsByte ← pushRef (.binOp .and rflags lahfMask .i64)
  let ahShift ← pushRef (.constant 8 .i64)
  let shiftedFlags ← pushRef (.binOp .shl flagsByte ahShift .i64)
  let rax ← pushRef (.loadReg .rax .i64)
  let clearAh ← pushRef (.constant (~~~0xFF00) .i64)
  let raxWithoutAh ← pushRef (.binOp .and rax clearAh .i64)
  let newRax ← pushRef (.binOp .or raxWithoutAh shiftedFlags .i64)
  pushStmt (.storeReg .rax newRax .i64)
  return 1

def decodeSahf : Emit Nat := do
  let rax ← pushRef (.loadReg .rax .i64)
  let ahShift ← pushRef (.constant 8 .i64)
  let ah ← pushRef (.binOp .shr rax ahShift .i64)
  let sahfMask ← pushRef (.constant 0xD5 .i64)
  let flagsFromAh ← pushRef (.binOp .and ah sahfMask .i64)
  let rflags ← pushRef .loadRflags
  let clearSahfBits ← pushRef (.constant (~~~0xD5) .i64)
  let preservedRflags ← pushRef (.binOp .and rflags clearSahfBits .i64)
  let newRflags ← pushRef (.binOp .or preservedRflags flagsFromAh .i64)
  pushStmt (.storeRflags newRflags)
  return 1

end FlagsImage

end Prisma.Decoder
