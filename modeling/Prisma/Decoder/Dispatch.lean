import Prisma.Decoder.Tables
import Prisma.Decoder.Shift
import Prisma.Decoder.Atomic
import Prisma.Decoder.BitOps
import Prisma.Decoder.Vector

namespace Prisma.Decoder

variable (prefixes : PrefixSet) (opcode : U8) (bytes : List U8) (cursor : Nat)
  (opcodeGuestPc : U64)

def decodeThreeByte0F38 : Emit Nat := do
  let opcode ← byteAt bytes (cursor + 1)
  match opcode with
  | 0xF0 | 0xF1 =>
    if prefixes.rep = some 0xF2 then decodeCrc32c prefixes opcode bytes (cursor + 1)
    else decodeMovbe prefixes opcode bytes (cursor + 1)
  | _ => throw (.unsupportedOpcode opcode)

def decodeThreeByte0F3A : Emit Nat := do
  let opcode ← byteAt bytes (cursor + 1)
  match opcode with
  | 0x44 => decodePclmulqdq prefixes opcode bytes (cursor + 1)
  | 0x60 | 0x61 | 0x62 | 0x63 => decodePcmpxstr prefixes opcode bytes (cursor + 1)
  | _ => throw (.unsupportedOpcode opcode)

-- The dispatch on the byte behind 0F at `cursor`, which returns the bytes consumed behind 0F.
def decodeTwoByteOpcode (op2 : U8) : Emit Nat :=
  let start := cursor + 1
  match classifyTwoByte op2 with
  | .descriptorGroup => decodeDescriptorGroup prefixes op2 bytes start
  | .systemGroup => decodeSystemGroup prefixes op2 bytes start
  | .systemTrap => decodeTwoByteTrap prefixes op2 .sigill
  | .systemTrapRm =>
    if op2 = 0x20 ∨ op2 = 0x21 ∨ op2 = 0x22 ∨ op2 = 0x23 then
      decodeTwoByteRmTrap prefixes op2 bytes start .sigill
    else
      decodeTwoByteAnyRmTrap prefixes op2 bytes start .sigill
  | .syscall => decodeSyscall prefixes op2
  | .cacheTrap => decodeCacheTrap prefixes op2
  | .ud2 => decodeUd2 prefixes op2
  | .prefetch => decodePrefetch op2 bytes start
  | .prefetchw => decodePrefetchw op2 bytes start
  | .mmxStateNoop => decodeMmxStateNoop prefixes op2
  | .endbr => decodeEndbr prefixes op2 bytes start
  | .nopRm => decodeNopRm op2 bytes start
  | .rdtsc => decodeRdtsc prefixes op2
  | .cmov => decodeCmov prefixes op2 bytes start
  | .movzxI8 => decodeMovzx prefixes bytes start .i8
  | .movzxI16 => decodeMovzx prefixes bytes start .i16
  | .undefinedRm => decodeTwoByteAnyRmTrap prefixes op2 bytes start .sigill
  | .imulRm => decodeBinopRRm prefixes bytes start .mul
  | .movsxI8 => decodeMovsx prefixes bytes start .i8
  | .movsxI16 => decodeMovsx prefixes bytes start .i16
  | .popcnt =>
    if prefixes.rep = some 0xF3 then decodePopcnt prefixes bytes start
    else throw (.unsupportedOpcode op2)
  | .fence => decodeFence prefixes op2 bytes start
  | .xadd => decodeXadd prefixes op2 bytes start
  | .movnti => decodeMovnti prefixes op2 bytes start
  | .lzcnt =>
    if prefixes.rep = some 0xF3 then decodeLzcnt prefixes bytes start
    else decodeBsfBsr prefixes bytes start true
  | .tzcnt =>
    if prefixes.rep = some 0xF3 then decodeTzcnt prefixes bytes start
    else decodeBsfBsr prefixes bytes start false
  | .btGroup => decodeBtGroupImm8 prefixes op2 bytes start
  | .bswap => decodeBswap prefixes op2
  | .cmpxchg => decodeCmpxchg prefixes op2 bytes start
  | .cmpxchg8b16b => decodeCmpxchg8b16b prefixes op2 bytes start opcodeGuestPc
  | .threeByte0F38 => decodeThreeByte0F38 prefixes bytes start
  | .threeByte0F3A => decodeThreeByte0F3A prefixes bytes start
  | .condJumpRel32 =>
    if prefixes.rex.present || prefixes.rep = some 0xF3 || prefixes.operandOverride then
      throw (.unsupportedOpcode op2)
    else
      decodeCondJumpRel32 op2 bytes cursor opcodeGuestPc
  | .setcc => decodeSetcc prefixes op2 bytes start
  | .cpuid => decodeCpuid prefixes op2
  | .unsupported => throw (.unsupportedOpcode op2)

def decodeTwoByte : Emit Nat := do
  let op2 ← byteAt bytes (cursor + 1)
  let consumedAfterEscape ← decodeTwoByteOpcode prefixes bytes cursor opcodeGuestPc op2
  return 1 + consumedAfterEscape

-- Direct jumps and calls accept no REX, LOCK, segment or operand-size prefix.
def rejectBranchPrefixes : Parse Unit :=
  rejectIf (prefixes.rexLockSegment || prefixes.operandOverride) (.unsupportedOpcode opcode)

def rejectPushfPrefixes : Parse Unit :=
  rejectIf (prefixes.operandOverride || prefixes.rep = some 0xF3 || prefixes.rex.present)
    (.unsupportedOpcode opcode)

-- NOP, and PAUSE with the prefix F3.
def decodeNop : Emit Nat := do
  if prefixes.rep = some 0xF3 && !prefixes.rexLockSegment && !prefixes.operandOverride &&
      !prefixes.addrOverride then
    return 1
  else
    rejectIf (prefixes.rep.isSome || prefixes.rex.w) (.unsupportedOpcode opcode)
    return 1

-- FWAIT and CLD.
def decodeNoop : Emit Nat := do
  rejectIf prefixes.any (.unsupportedOpcode opcode)
  return 1

def decodeOneByteOpcode : Emit Nat :=
  match classifyOneByte opcode with
  | .movRmR8 => decodeMovRmRWithSize prefixes bytes cursor .i8
  | .movRmR => decodeMovRmR prefixes bytes cursor
  | .movR8Rm => decodeMovRRmWithSize prefixes bytes cursor .i8
  | .movRRm => decodeMovRRm prefixes bytes cursor
  | .popRm => decodePopRm prefixes bytes cursor
  | .lea => decodeLea prefixes bytes cursor
  | .movMoffsToAcc | .movAccToMoffs => decodeMovMoffs prefixes opcode bytes cursor
  | .movsb => decodeMovs prefixes opcode
  | .cmpsb => decodeCmps prefixes opcode
  | .stosb => decodeStos prefixes opcode
  | .lodsb => decodeLods prefixes opcode
  | .scasb => decodeScas prefixes opcode
  | .movR8I8 => decodeMovR8I8 prefixes opcode bytes cursor
  | .movRI => decodeMovRi prefixes opcode bytes cursor
  | .addRmR8 => decodeBinopRmRWithSize prefixes bytes cursor .add .i8
  | .addRmR => decodeBinopRmR prefixes bytes cursor .add
  | .adcRmR => decodeAdcSbbRmR prefixes bytes cursor false (operandSize prefixes)
  | .adcRmR8 => decodeAdcSbbRmR prefixes bytes cursor false .i8
  | .sbbRmR => decodeAdcSbbRmR prefixes bytes cursor true (operandSize prefixes)
  | .sbbRmR8 => decodeAdcSbbRmR prefixes bytes cursor true .i8
  | .adcRRm => decodeAdcSbbRRm prefixes bytes cursor false (operandSize prefixes)
  | .adcR8Rm => decodeAdcSbbRRm prefixes bytes cursor false .i8
  | .sbbRRm => decodeAdcSbbRRm prefixes bytes cursor true (operandSize prefixes)
  | .sbbR8Rm => decodeAdcSbbRRm prefixes bytes cursor true .i8
  | .addR8Rm => decodeBinopRRmWithSize prefixes bytes cursor .add .i8
  | .addRRm => decodeBinopRRm prefixes bytes cursor .add
  | .accImm => decodeAccImm prefixes opcode bytes cursor
  | .aluRmImm | .aluRmImm8 => decodeAluRmImm prefixes opcode bytes cursor opcodeGuestPc
  | .group2 => decodeGroup2 prefixes opcode bytes cursor
  | .subRmR8 => decodeBinopRmRWithSize prefixes bytes cursor .sub .i8
  | .subRmR => decodeBinopRmR prefixes bytes cursor .sub
  | .subR8Rm => decodeBinopRRmWithSize prefixes bytes cursor .sub .i8
  | .subRRm => decodeBinopRRm prefixes bytes cursor .sub
  | .andRmR8 => decodeBinopRmRWithSize prefixes bytes cursor .and .i8
  | .andRmR => decodeBinopRmR prefixes bytes cursor .and
  | .andR8Rm => decodeBinopRRmWithSize prefixes bytes cursor .and .i8
  | .andRRm => decodeBinopRRm prefixes bytes cursor .and
  | .orRmR8 => decodeBinopRmRWithSize prefixes bytes cursor .or .i8
  | .orRmR => decodeBinopRmR prefixes bytes cursor .or
  | .orR8Rm => decodeBinopRRmWithSize prefixes bytes cursor .or .i8
  | .orRRm => decodeBinopRRm prefixes bytes cursor .or
  | .xorRmR8 => decodeBinopRmRWithSize prefixes bytes cursor .xor .i8
  | .xorRmR => decodeBinopRmR prefixes bytes cursor .xor
  | .xorR8Rm => decodeBinopRRmWithSize prefixes bytes cursor .xor .i8
  | .xorRRm => decodeBinopRRm prefixes bytes cursor .xor
  | .cmpRmR8 => decodeCmpRmRWithSize prefixes bytes cursor .i8
  | .cmpRmR => decodeCmpRmR prefixes bytes cursor
  | .cmpR8Rm => decodeCmpRRmWithSize prefixes bytes cursor .i8
  | .cmpRRm => decodeCmpRRmWithSize prefixes bytes cursor (operandSize prefixes)
  | .testRmR8 => decodeTestRmRWithSize prefixes bytes cursor .i8
  | .testRmR => decodeTestRmR prefixes bytes cursor
  | .legacyInvalidTrap => decodeOneByteTrap prefixes opcode .sigill
  | .legacyInvalidImm8 => decodeLegacyInvalidImm8 prefixes opcode bytes cursor
  | .movsxd => decodeMovsxd prefixes bytes cursor
  | .imulRmImm => decodeImulImm prefixes 0x69 bytes cursor
  | .imulRmImm8 => decodeImulImm prefixes 0x6B bytes cursor
  | .movRmImm => decodeMovRmImm prefixes opcode bytes cursor
  | .callRel32 => do
    rejectBranchPrefixes prefixes opcode
    decodeCallRel32 bytes cursor opcodeGuestPc
  | .jumpRel8 => do
    rejectBranchPrefixes prefixes opcode
    decodeJumpRel8 bytes cursor opcodeGuestPc
  | .jrcxzRel8 => decodeJrcxzRel8 prefixes bytes cursor opcodeGuestPc
  | .loopRel8 => decodeLoopRel8 prefixes bytes cursor opcodeGuestPc
  | .ioTrapImm8 => decodeIoTrapImm8 prefixes opcode bytes cursor
  | .jumpRel32 => do
    rejectBranchPrefixes prefixes opcode
    decodeJumpRel32 bytes cursor opcodeGuestPc
  | .ioTrapDx => decodeOneByteTrap prefixes opcode .sigill
  | .pushfq => do
    rejectPushfPrefixes prefixes opcode
    decodePushfq
  | .popfq => do
    rejectPushfPrefixes prefixes opcode
    decodePopfq
  | .sahf => do
    rejectIf prefixes.any (.unsupportedOpcode opcode)
    decodeSahf
  | .lahf => do
    rejectIf prefixes.any (.unsupportedOpcode opcode)
    decodeLahf
  | .nop => decodeNop prefixes opcode
  | .fwait | .cld => decodeNoop prefixes opcode
  | .xchgAcc => decodeXchgAcc prefixes opcode
  | .signExtendAcc => decodeSignExtendAcc prefixes
  | .signExtendAccToDx => decodeSignExtendAccToDx prefixes
  | .xlat => decodeXlat prefixes
  | .x87D9 => decodeX87D9 prefixes opcode bytes cursor
  | .x87DB => decodeX87DB prefixes opcode bytes cursor
  | .condJumpRel8 => do
    rejectIf (prefixes.rex.present || prefixes.operandOverride) (.unsupportedOpcode opcode)
    decodeCondJumpRel8 bytes cursor opcodeGuestPc
  | .xchg => decodeXchg prefixes opcode bytes cursor
  | .ret => decodeRet prefixes
  | .retImm16 => decodeRetImm16 prefixes bytes cursor
  | .iretTrap => decodeOneByteTrap prefixes opcode .sigill
  | .enter => decodeEnter prefixes bytes cursor
  | .leave => decodeLeave prefixes
  | .int3 => decodeOneByteTrap prefixes opcode .sigtrap
  | .intImm8 => decodeIntImm8 prefixes opcode bytes cursor
  | .group3 => decodeGroup3 prefixes opcode bytes cursor
  | .group4 => decodeGroup4 prefixes bytes cursor
  | .group5 => decodeGroup5 prefixes bytes cursor opcodeGuestPc
  | .pushReg => decodePushR prefixes opcode
  | .pushImm => decodePushImm prefixes opcode bytes cursor
  | .popReg => decodePopR prefixes opcode
  | .icebp => decodeOneByteTrap prefixes opcode .sigtrap
  | .hlt => decodeOneByteTrap prefixes opcode .sigill
  | .privilegedTrap => decodeOneByteTrap prefixes opcode .sigill
  | .twoBytePrefix => decodeTwoByte prefixes bytes cursor opcodeGuestPc
  | .unsupported => throw (.unsupportedOpcode opcode)

def decodeOpcode : Emit Nat :=
  if prefixes.vex.isSome then decodeVex prefixes opcode bytes cursor
  else decodeOneByteOpcode prefixes opcode bytes cursor opcodeGuestPc

-- Decodes one x86 instruction at `offset`, whose guest address is `instructionGuestPc`.
def decodeOneAt (offset : Nat) (instructionGuestPc : U64) : Parse Decoded := do
  let (prefixes, cursor) := parsePrefixes bytes offset
  let opcode ← byteAt bytes cursor
  let opcodeGuestPc := instructionGuestPc + BitVec.ofNat 64 (cursor - offset)
  let (consumed, stmts) ← (decodeOpcode prefixes opcode bytes cursor opcodeGuestPc).run []
  return { stmts, bytesConsumed := cursor - offset + consumed }

end Prisma.Decoder
