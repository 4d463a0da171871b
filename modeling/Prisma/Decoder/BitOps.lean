import Prisma.Decoder.Control

namespace Prisma.Decoder

variable (prefixes : PrefixSet) (opcode : U8) (bytes : List U8) (cursor : Nat)

section Conditional

def decodeCmov : Emit Nat := do
  rejectIf (prefixes.rep.isSome || prefixes.lock || prefixes.segment.isSome)
    (.unsupportedOpcode opcode)
  let cc ← requireCondition opcode
  let size := operandSize prefixes
  let modrm ← parseModrm bytes (cursor + 1)
  let dstReg := mapReg modrm.reg prefixes.rex true
  let falseValue ← pushRef (.loadReg dstReg size)
  let (trueValue, used) ← loadRm modrm prefixes bytes (cursor + 1) size
  let selected ← pushRef (.select cc trueValue falseValue size)
  pushStmt (.storeReg dstReg selected size)
  return 1 + used

def decodeSetcc : Emit Nat := do
  rejectIf (prefixes.rep.isSome || prefixes.lock || prefixes.segment.isSome)
    (.unsupportedOpcode opcode)
  let cc ← requireCondition opcode
  let modrm ← parseModrm bytes (cursor + 1)
  let one ← pushRef (.constant 1 .i8)
  let zero ← pushRef (.constant 0 .i8)
  let selected ← pushRef (.select cc one zero .i8)
  let (dst, used) ← rmOperand modrm prefixes bytes (cursor + 1)
  dst.store selected .i8
  return 1 + used

end Conditional

section Counts

def decodePopcnt : Emit Nat := do
  let size := operandSize prefixes
  let modrm ← parseModrm bytes (cursor + 1)
  let (src, used) ← loadRm modrm prefixes bytes (cursor + 1) size
  let result ← pushRef (.popcnt src size)
  pushStmt (.storeReg (mapReg modrm.reg prefixes.rex true) result size)
  pushStmt (.writeFlagsPopcnt src size)
  return 1 + used

-- LZCNT and TZCNT.
def decodeCountZero (count : Ref → OpSize → Op) : Emit Nat := do
  let size := operandSize prefixes
  let modrm ← parseModrm bytes (cursor + 1)
  let (src, used) ← loadRm modrm prefixes bytes (cursor + 1) size
  let result ← pushRef (count src size)
  pushStmt (.storeReg (mapReg modrm.reg prefixes.rex true) result size)
  pushStmt (.writeFlagsCountZero src result size)
  return 1 + used

def decodeLzcnt : Emit Nat := decodeCountZero prefixes bytes cursor .lzcnt

def decodeTzcnt : Emit Nat := decodeCountZero prefixes bytes cursor .tzcnt

-- The index of the highest or of the lowest bit.
def emitBitIndex (isBsr : Bool) (src : Ref) (size : OpSize) : Emit Ref := do
  if isBsr then
    let lz ← pushRef (.lzcnt src size)
    let width ← pushRef (.constant (.ofNat 64 (size.bitWidth - 1)) size)
    pushRef (.binOp .sub width lz size)
  else
    pushRef (.tzcnt src size)

-- BSF and BSR keep the destination if the source is zero.
def decodeBsfBsr (isBsr : Bool) : Emit Nat := do
  let size := operandSize prefixes
  let modrm ← parseModrm bytes (cursor + 1)
  let dstReg := mapReg modrm.reg prefixes.rex true
  let (src, used) ← loadRm modrm prefixes bytes (cursor + 1) size
  let old ← pushRef (.loadReg dstReg size)
  let count ← emitBitIndex isBsr src size
  let zero ← pushRef (.constant 0 size)
  let _ ← pushRef (.cmpFlags src zero size)
  let result ← pushRef (.select .eq old count size)
  pushStmt (.storeReg dstReg result size)
  return 1 + used

end Counts

section BitTest

-- Moves the address of a memory operand to the quadword with the tested bit.
def emitBtOperand (operand : RmOperand) (imm : U64) : Emit RmOperand := do
  match operand with
  | .reg reg => return .reg reg
  | .mem addr =>
    if imm / 64 * 8 = 0 then
      return .mem addr
    else
      let offset ← pushRef (.constant (imm / 64 * 8) .i64)
      let adjusted ← pushRef (.binOp .add addr offset .i64)
      return .mem adjusted

-- BT stores nothing, BTS, BTR and BTC set, clear and complement the bit.
def emitBtStore (reg : BitVec 3) (dst : RmOperand) (src mask : Ref) : Emit Unit := do
  match reg with
  | 4 => return ()
  | 5 =>
    let newval ← pushRef (.binOp .or src mask .i64)
    dst.store newval .i64
  | 6 =>
    let allOnes ← pushRef (.constant (BitVec.allOnes 64) .i64)
    let invMask ← pushRef (.binOp .xor mask allOnes .i64)
    let newval ← pushRef (.binOp .and src invMask .i64)
    dst.store newval .i64
  | 7 =>
    let newval ← pushRef (.binOp .xor src mask .i64)
    dst.store newval .i64
  | _ => throw (.unsupportedOpcode opcode)

-- BT, BTS, BTR and BTC with an immediate, always at 64 bits.
def decodeBtGroupImm8 : Emit Nat := do
  let modrm ← parseModrm bytes (cursor + 1)
  let (operand, used) ← rmOperand modrm prefixes bytes (cursor + 1)
  let imm ← readImm bytes (cursor + 1 + used) 1
  let dst ← emitBtOperand operand imm
  let src ← dst.load .i64
  let shift ← pushRef (.constant (imm &&& 63) .i64)
  let one ← pushRef (.constant 1 .i64)
  let mask ← pushRef (.binOp .shl one shift .i64)
  let oldbit ← pushRef (.binOp .and src mask .i64)
  emitBtStore opcode modrm.reg dst src mask
  let zero ← pushRef (.constant 0 .i64)
  let bit ← pushRef (.compare .ne oldbit zero .i64)
  pushStmt (.storeCarry bit)
  let _ ← pushRef (.cmpFlags bit one .i64)
  return 1 + used + 1

end BitTest

section ByteSwap

def decodeBswap : Emit Nat := do
  rejectIf (prefixes.rep.isSome || prefixes.lock || prefixes.segment.isSome)
    (.unsupportedOpcode opcode)
  let size := operandSize prefixes
  rejectIf (size = .i16) (.unsupportedOpcode opcode)
  let reg := mapReg (opcode.setWidth 3) prefixes.rex false
  let src ← pushRef (.loadReg reg size)
  let result ← pushRef (.bswap src size)
  pushStmt (.storeReg reg result size)
  return 1

def emitMovbe (reg : Gpr) (addr : Ref) (size : OpSize) : Emit Unit := do
  if opcode = 0xF0 then
    let loaded ← pushRef (.loadMem addr size)
    let swapped ← pushRef (.bswap loaded size)
    pushStmt (.storeReg reg swapped size)
  else
    let loaded ← pushRef (.loadReg reg size)
    let swapped ← pushRef (.bswap loaded size)
    pushStmt (.storeMem addr swapped size)

def decodeMovbe : Emit Nat := do
  rejectIf (prefixes.rep.isSome || prefixes.lock || prefixes.segment.isSome)
    (.unsupportedOpcode opcode)
  let size := operandSize prefixes
  let modrm ← parseModrm bytes (cursor + 1)
  rejectIf (modrm.mod = 3) (.unsupportedOpcode opcode)
  let (addr, used) ← emitAddrWithSize modrm prefixes bytes (cursor + 1)
  emitMovbe opcode (mapReg modrm.reg prefixes.rex true) addr size
  return 2 + used

-- The sizes of destination and source.
def crc32cSizes : OpSize × OpSize :=
  if opcode = 0xF0 then (.i32, .i8)
  else if prefixes.operandOverride then (.i32, .i16)
  else if prefixes.rex.w then (.i64, .i64)
  else (.i32, .i32)

def decodeCrc32c : Emit Nat := do
  rejectIf (prefixes.rep ≠ some 0xF2 || prefixes.lock || prefixes.segment.isSome)
    (.unsupportedOpcode opcode)
  let modrm ← parseModrm bytes (cursor + 1)
  let (dstSize, srcSize) := crc32cSizes prefixes opcode
  let dstReg := mapReg modrm.reg prefixes.rex true
  let crc ← pushRef (.loadReg dstReg dstSize)
  let (data, used) ← loadRm modrm prefixes bytes (cursor + 1) srcSize
  let result ← pushRef (.crc32c crc data srcSize)
  pushStmt (.storeReg dstReg result dstSize)
  return 2 + used

end ByteSwap

end Prisma.Decoder
