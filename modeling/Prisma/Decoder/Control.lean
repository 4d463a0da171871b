import Prisma.Decoder.Strings

namespace Prisma.Decoder

variable (prefixes : PrefixSet) (opcode : U8) (bytes : List U8) (cursor : Nat)
  (opcodeGuestPc : U64)

section Branches

-- The condition in the low four bits of Jcc, SETcc and CMOVcc. There is none for parity.
def jccCondition : Option CondCode :=
  match opcode.extractLsb' 0 4 with
  | 0x0 => some .ov
  | 0x1 => some .noOv
  | 0x2 => some .nc
  | 0x3 => some .cc
  | 0x4 => some .eq
  | 0x5 => some .ne
  | 0x6 => some .ule
  | 0x7 => some .ugt
  | 0x8 => some .mi
  | 0x9 => some .pl
  | 0xC => some .slt
  | 0xD => some .sge
  | 0xE => some .sle
  | 0xF => some .sgt
  | _ => none

def requireCondition : Parse CondCode :=
  match jccCondition opcode with
  | some cc => .ok cc
  | none => .error (.unsupportedOpcode opcode)

def readRel8 (offset : Nat) : Parse U64 := do
  return (← byteAt bytes offset).signExtend 64

def readRel32 (offset : Nat) : Parse U64 := do
  return signExtendImm32 (← readImm bytes offset 4)

def decodeCondJumpRel8 : Emit Nat := do
  let opcode ← byteAt bytes cursor
  let cc ← requireCondition opcode
  let rel ← readRel8 bytes (cursor + 1)
  let fallthrough := addSignedDisp opcodeGuestPc 2
  pushStmt (.condJumpRel cc (addSignedDisp fallthrough rel) fallthrough)
  return 2

def decodeCondJumpRel32 : Emit Nat := do
  let cc ← requireCondition opcode
  let rel ← readRel32 bytes (cursor + 2)
  let fallthrough := addSignedDisp opcodeGuestPc 6
  pushStmt (.condJumpRel cc (addSignedDisp fallthrough rel) fallthrough)
  return 5

def decodeCallRel32 : Emit Nat := do
  let rel ← readRel32 bytes (cursor + 1)
  let fallthrough := addSignedDisp opcodeGuestPc 5
  pushStmt (.callRel (addSignedDisp fallthrough rel) fallthrough)
  return 5

def decodeJumpRel8 : Emit Nat := do
  let rel ← readRel8 bytes (cursor + 1)
  pushStmt (.jumpRel (addSignedDisp (addSignedDisp opcodeGuestPc 2) rel))
  return 2

def decodeJumpRel32 : Emit Nat := do
  let rel ← readRel32 bytes (cursor + 1)
  pushStmt (.jumpRel (addSignedDisp (addSignedDisp opcodeGuestPc 5) rel))
  return 5

def counterSize : OpSize :=
  if prefixes.addrOverride then .i32 else .i64

def rejectCounterPrefixes : Parse Unit :=
  rejectIf (prefixes.rex.present || prefixes.operandOverride || prefixes.lock ||
    prefixes.segment.isSome || prefixes.rep.isSome) (.unsupportedOpcode opcode)

def decodeJrcxzRel8 : Emit Nat := do
  rejectCounterPrefixes prefixes 0xE3
  let rel ← readRel8 bytes (cursor + 1)
  let fallthrough := addSignedDisp opcodeGuestPc 2
  let size := counterSize prefixes
  let rcx ← pushRef (.loadReg .rcx size)
  let zero ← pushRef (.constant 0 size)
  let _ ← pushRef (.cmpFlags rcx zero size)
  pushStmt (.condJumpRel .eq (addSignedDisp fallthrough rel) fallthrough)
  return 2

def decodeLoopRel8 : Emit Nat := do
  rejectCounterPrefixes prefixes 0xE2
  let rel ← readRel8 bytes (cursor + 1)
  let fallthrough := addSignedDisp opcodeGuestPc 2
  let size := counterSize prefixes
  let counter ← pushRef (.loadReg .rcx size)
  let one ← pushRef (.constant 1 size)
  let decremented ← pushRef (.binOp .sub counter one size)
  pushStmt (.storeReg .rcx decremented size)
  let zero ← pushRef (.constant 0 size)
  let _ ← pushRef (.cmpFlags decremented zero size)
  pushStmt (.condJumpRel .ne (addSignedDisp fallthrough rel) fallthrough)
  return 2

def decodeRet : Emit Nat := do
  rejectIf (prefixes.rex.present || prefixes.operandOverride || prefixes.lock ||
    prefixes.segment.isSome) (.unsupportedOpcode 0xC3)
  pushStmt .ret
  return 1

def decodeRetImm16 : Emit Nat := do
  rejectIf (prefixes.rex.present || prefixes.operandOverride || prefixes.lock ||
    prefixes.segment.isSome) (.unsupportedOpcode 0xC2)
  let imm ← readImm bytes (cursor + 1) 2
  pushStmt (.retAdjusted (imm + 8))
  return 3

end Branches

section Traps

-- Decoders that accept no prefix and emit one statement.
def decodePlain (op : Op) : Emit Nat := do
  rejectIf prefixes.any (.unsupportedOpcode opcode)
  pushStmt op
  return 1

def decodeSyscall : Emit Nat := decodePlain prefixes opcode .syscall

def decodeUd2 : Emit Nat := decodePlain prefixes opcode (.trap .sigill)

def decodeOneByteTrap (kind : TrapKind) : Emit Nat := decodePlain prefixes opcode (.trap kind)

def decodeTwoByteTrap (kind : TrapKind) : Emit Nat := decodePlain prefixes opcode (.trap kind)

def decodeCpuid : Emit Nat := decodePlain prefixes opcode .cpuid

-- INVD and WBINVD, and WBNOINVD with the prefix F3.
def decodeCacheTrap : Emit Nat := do
  rejectIf (prefixes.rexLockSegment || prefixes.operandOverride || prefixes.addrOverride ||
    (!prefixes.rep.isNone && !(opcode = 0x09 ∧ prefixes.rep = some 0xF3)))
    (.unsupportedOpcode opcode)
  pushStmt (.trap .sigill)
  return 1

-- Decoders that accept no prefix, skip an 8-bit immediate and trap.
def decodeTrapImm8 (kind : TrapKind) : Emit Nat := do
  rejectIf prefixes.any (.unsupportedOpcode opcode)
  let _ ← byteAt bytes (cursor + 1)
  pushStmt (.trap kind)
  return 2

def decodeIntImm8 : Emit Nat := decodeTrapImm8 prefixes opcode bytes cursor .sigtrap

def decodeLegacyInvalidImm8 : Emit Nat := decodeTrapImm8 prefixes opcode bytes cursor .sigill

def decodeIoTrapImm8 : Emit Nat := decodeTrapImm8 prefixes opcode bytes cursor .sigill

def decodeDescriptorGroup : Emit Nat := do
  let modrm ← parseModrm bytes (cursor + 1)
  rejectIf (!((modrm.reg = 2 ∨ modrm.reg = 3) && !prefixes.any)) (.unsupportedOpcode opcode)
  let modrmBytes ← bytesForModrm modrm bytes (cursor + 1)
  pushStmt (.trap .sigill)
  return 1 + modrmBytes

def decodeTwoByteRmTrap (kind : TrapKind) : Emit Nat := do
  rejectIf prefixes.any (.unsupportedOpcode opcode)
  let modrm ← parseModrm bytes (cursor + 1)
  rejectIf (modrm.mod ≠ 3) (.unsupportedOpcode opcode)
  let modrmBytes ← bytesForModrm modrm bytes (cursor + 1)
  pushStmt (.trap kind)
  return 1 + modrmBytes

def decodeTwoByteAnyRmTrap (kind : TrapKind) : Emit Nat := do
  rejectIf prefixes.any (.unsupportedOpcode opcode)
  let modrm ← parseModrm bytes (cursor + 1)
  let modrmBytes ← bytesForModrm modrm bytes (cursor + 1)
  pushStmt (.trap kind)
  return 1 + modrmBytes

end Traps

section System

-- The 64-bit value in EDX:EAX.
def emitSplitEdxEax (value : Ref) : Emit Unit := do
  pushStmt (.storeReg .rax value .i32)
  let shift ← pushRef (.constant 32 .i64)
  let high ← pushRef (.binOp .shr value shift .i64)
  pushStmt (.storeReg .rdx high .i32)

def decodeRdtsc : Emit Nat := do
  rejectIf prefixes.any (.unsupportedOpcode opcode)
  let counter ← pushRef .rdtsc
  emitSplitEdxEax counter
  return 1

def decodeXgetbv : Emit Nat := do
  rejectIf prefixes.any (.unsupportedOpcode opcode)
  let value ← pushRef .xgetbv
  emitSplitEdxEax value
  return 2

-- The register forms of 0F 01 other than XGETBV that trap.
def systemRegisterTrap (modrm : ModRm) : Bool :=
  modrm.mod = 3 ∧
    ((modrm.reg = 0 ∧ modrm.rm ∈ [1, 2, 3, 4]) ∨
      (modrm.reg = 1 ∧ (modrm.rm ≤ 3 ∨ modrm.rm = 7)) ∨
      (modrm.reg = 2 ∧ modrm.rm ∈ [1, 4]) ∨
      modrm.reg = 3 ∨
      (modrm.reg = 7 ∧ modrm.rm = 0))

-- The forms of 0F 01 with an r/m operand that trap.
def systemOperandTrap (modrm : ModRm) : Bool :=
  ((modrm.reg = 2 ∨ modrm.reg = 3 ∨ modrm.reg = 7) ∧ modrm.mod ≠ 3) ∨ modrm.reg = 6

def decodeSystemGroup : Emit Nat := do
  let modrm ← parseModrm bytes (cursor + 1)
  if modrm.mod = 3 ∧ modrm.reg = 2 ∧ modrm.rm = 0 then
    decodeXgetbv prefixes opcode
  else if systemRegisterTrap modrm then
    rejectIf prefixes.any (.unsupportedOpcode opcode)
    pushStmt (.trap .sigill)
    return 2
  else if systemOperandTrap modrm then
    rejectIf prefixes.any (.unsupportedOpcode opcode)
    let modrmBytes ← bytesForModrm modrm bytes (cursor + 1)
    pushStmt (.trap .sigill)
    return 1 + modrmBytes
  else
    throw (.unsupportedOpcode opcode)

def decodeNopRm : Emit Nat := do
  let modrm ← parseModrm bytes (cursor + 1)
  rejectIf (modrm.reg ≠ 0) (.unsupportedOpcode opcode)
  let modrmBytes ← bytesForModrm modrm bytes (cursor + 1)
  return 1 + modrmBytes

-- Prefetch hints, which have a memory operand and a bounded reg field.
def decodePrefetchHint (maxReg : BitVec 3) : Emit Nat := do
  let modrm ← parseModrm bytes (cursor + 1)
  rejectIf (modrm.mod = 3 ∨ modrm.reg > maxReg) (.unsupportedOpcode opcode)
  let modrmBytes ← bytesForModrm modrm bytes (cursor + 1)
  return 1 + modrmBytes

def decodePrefetch : Emit Nat := decodePrefetchHint opcode bytes cursor 3

def decodePrefetchw : Emit Nat := decodePrefetchHint opcode bytes cursor 1

def decodeMmxStateNoop : Emit Nat := do
  rejectIf prefixes.any (.unsupportedOpcode opcode)
  return 1

def decodeEndbr : Emit Nat := do
  rejectIf (prefixes.rep ≠ some 0xF3 || prefixes.rex.present || prefixes.operandOverride ||
    prefixes.addrOverride || prefixes.lock || prefixes.segment.isSome) (.unsupportedOpcode opcode)
  let b ← byteAt bytes (cursor + 1)
  rejectIf (b ≠ 0xFA ∧ b ≠ 0xFB) (.unsupportedOpcode opcode)
  return 2

-- CLFLUSH and, with the operand-size prefix, CLWB.
def isCacheLineHint (modrm : ModRm) : Bool :=
  modrm.mod ≠ 3 ∧ (modrm.reg = 7 ∨ (modrm.reg = 6 ∧ prefixes.operandOverride)) ∧
    !prefixes.rexLockSegment ∧ prefixes.rep.isNone ∧ !prefixes.addrOverride

def fenceKind (reg : BitVec 3) : FenceKind :=
  match reg with
  | 5 => .lfence
  | 6 => .mfence
  | _ => .sfence

def decodeFence : Emit Nat := do
  let modrm ← parseModrm bytes (cursor + 1)
  if isCacheLineHint prefixes modrm then
    let modrmBytes ← bytesForModrm modrm bytes (cursor + 1)
    return 1 + modrmBytes
  else
    rejectIf prefixes.any (.unsupportedOpcode opcode)
    rejectIf (modrm.mod ≠ 3 ∨ modrm.rm ≠ 0 ∨ modrm.reg < 5) (.unsupportedOpcode opcode)
    pushStmt (.fence (fenceKind modrm.reg))
    return 2

def decodeX87D9 : Emit Nat := do
  rejectIf prefixes.any (.unsupportedOpcode opcode)
  let modrm ← parseModrm bytes (cursor + 1)
  rejectIf (¬(modrm.mod = 3 ∧ modrm.reg = 2 ∧ modrm.rm = 0)) (.unsupportedOpcode opcode)
  return 2

def decodeX87DB : Emit Nat := do
  rejectIf prefixes.any (.unsupportedOpcode opcode)
  let modrm ← parseModrm bytes (cursor + 1)
  rejectIf (¬(modrm.mod = 3 ∧ modrm.reg = 4 ∧ (modrm.rm = 2 ∨ modrm.rm = 3)))
    (.unsupportedOpcode opcode)
  return 2

end System

end Prisma.Decoder
