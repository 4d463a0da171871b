import Prisma.Decoder.Move

namespace Prisma.Decoder

variable (prefixes : PrefixSet) (opcode : U8) (bytes : List U8) (cursor : Nat)

section Exchange

def xchgSize : OpSize :=
  if opcode = 0x86 then .i8 else operandSize prefixes

def decodeXchg : Emit Nat := do
  let size := xchgSize prefixes opcode
  let modrm ← parseModrm bytes (cursor + 1)
  let regA := mapReg modrm.reg prefixes.rex true
  let valA ← pushRef (.loadReg regA size)
  let (operand, used) ← rmOperand modrm prefixes bytes (cursor + 1)
  let valB ← operand.load size
  pushStmt (.storeReg regA valB size)
  operand.store valA size
  return 1 + used

def decodeXchgAcc : Emit Nat := do
  let size := operandSize prefixes
  let other := opcodeReg opcode 0x90 prefixes.rex
  let accVal ← pushRef (.loadReg .rax size)
  let otherVal ← pushRef (.loadReg other size)
  pushStmt (.storeReg .rax otherVal size)
  pushStmt (.storeReg other accVal size)
  return 1

def decodeXlat : Emit Nat := do
  rejectIf (prefixes.addrOverride || prefixes.lock || prefixes.segment.isSome ||
    prefixes.rep.isSome) (.unsupportedOpcode 0xD7)
  let al ← pushRef (.loadReg .rax .i8)
  let index ← pushRef (.extend al .i8 .i64 false)
  let base ← pushRef (.loadReg .rbx .i64)
  let addr ← pushRef (.binOp .add base index .i64)
  let value ← pushRef (.loadMem addr .i8)
  pushStmt (.storeReg .rax value .i8)
  return 1

end Exchange

section SignExtend

def signExtendAccSizes : OpSize × OpSize :=
  if prefixes.rex.w then (.i32, .i64)
  else if prefixes.operandOverride then (.i8, .i16)
  else (.i16, .i32)

-- CBW, CWDE and CDQE.
def decodeSignExtendAcc : Emit Nat := do
  let (fromSize, toSize) := signExtendAccSizes prefixes
  let value ← pushRef (.loadReg .rax fromSize)
  let extended ← pushRef (.extend value fromSize toSize true)
  pushStmt (.storeReg .rax extended toSize)
  return 1

-- CWD, CDQ and CQO.
def decodeSignExtendAccToDx : Emit Nat := do
  let size := operandSize prefixes
  let value ← pushRef (.loadReg .rax size)
  let shift ← pushRef (.constant (.ofNat 64 (size.bitWidth - 1)) size)
  let high ← pushRef (.binOp .sar value shift size)
  pushStmt (.storeReg .rdx high size)
  return 1

end SignExtend

section StringOps

def stringOpSize : OpSize :=
  if opcode ∈ [0xA4, 0xA6, 0xAA, 0xAC, 0xAE] then .i8 else operandSize prefixes

def stringStep : OpSize → U64
  | .i8 => 1
  | .i16 => 2
  | .i32 => 4
  | .i64 => 8

def rejectStringPrefixes : Parse Unit :=
  rejectIf (prefixes.addrOverride || prefixes.lock || prefixes.segment.isSome ||
    prefixes.rep.isSome) (.unsupportedOpcode opcode)

-- Advances the pointer register by a step that has been emitted.
def emitAdvance (reg : Gpr) (pointer step : Ref) : Emit Unit := do
  let next ← pushRef (.binOp .add pointer step .i64)
  pushStmt (.storeReg reg next .i64)

def decodeLods : Emit Nat := do
  rejectStringPrefixes prefixes opcode
  let size := stringOpSize prefixes opcode
  let rsi ← pushRef (.loadReg .rsi .i64)
  let value ← pushRef (.loadMem rsi size)
  pushStmt (.storeReg .rax value size)
  let step ← pushRef (.constant (stringStep size) .i64)
  emitAdvance .rsi rsi step
  return 1

def decodeStos : Emit Nat := do
  rejectStringPrefixes prefixes opcode
  let size := stringOpSize prefixes opcode
  let rdi ← pushRef (.loadReg .rdi .i64)
  let value ← pushRef (.loadReg .rax size)
  pushStmt (.storeMem rdi value size)
  let step ← pushRef (.constant (stringStep size) .i64)
  emitAdvance .rdi rdi step
  return 1

def decodeScas : Emit Nat := do
  rejectStringPrefixes prefixes opcode
  let size := stringOpSize prefixes opcode
  let rdi ← pushRef (.loadReg .rdi .i64)
  let lhs ← pushRef (.loadReg .rax size)
  let rhs ← pushRef (.loadMem rdi size)
  let _ ← pushRef (.cmpFlags lhs rhs size)
  let step ← pushRef (.constant (stringStep size) .i64)
  emitAdvance .rdi rdi step
  pushStoreRflagsFromNzcv .invertArmCarry none none
  return 1

def decodeCmps : Emit Nat := do
  rejectStringPrefixes prefixes opcode
  let size := stringOpSize prefixes opcode
  let rsi ← pushRef (.loadReg .rsi .i64)
  let rdi ← pushRef (.loadReg .rdi .i64)
  let lhs ← pushRef (.loadMem rsi size)
  let rhs ← pushRef (.loadMem rdi size)
  let _ ← pushRef (.cmpFlags lhs rhs size)
  let step ← pushRef (.constant (stringStep size) .i64)
  emitAdvance .rsi rsi step
  emitAdvance .rdi rdi step
  pushStoreRflagsFromNzcv .invertArmCarry none none
  return 1

def decodeMovs : Emit Nat := do
  rejectStringPrefixes prefixes opcode
  let size := stringOpSize prefixes opcode
  let rsi ← pushRef (.loadReg .rsi .i64)
  let rdi ← pushRef (.loadReg .rdi .i64)
  let value ← pushRef (.loadMem rsi size)
  pushStmt (.storeMem rdi value size)
  let step ← pushRef (.constant (stringStep size) .i64)
  emitAdvance .rsi rsi step
  emitAdvance .rdi rdi step
  return 1

end StringOps

end Prisma.Decoder
