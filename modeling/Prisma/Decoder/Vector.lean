import Prisma.Decoder.Flags

namespace Prisma.Decoder

variable (prefixes : PrefixSet) (vex : VexPrefix) (opcode : U8) (bytes : List U8) (cursor : Nat)

def mapXmmIndex (idx : BitVec 3) (rex : RexPrefix) (isRegField : Bool) : U8 :=
  idx.setWidth 8 ||| (if (if isRegField then rex.r else rex.b) then 8 else 0)

section Vex

def requireVexLzNp : Parse Unit :=
  rejectIf (vex.l || vex.pp ≠ 0) (.unsupportedOpcode opcode)

def vexRex : RexPrefix where
  present := true
  w := vex.w
  r := vex.r
  x := vex.x
  b := vex.b

def vexEffectivePrefixes : PrefixSet :=
  { prefixes with rex := vexRex vex }

def mapVexReg (idx : BitVec 4) : Gpr :=
  mapReg (idx.setWidth 3) { b := idx.getLsbD 3 } false

def vexOperandSize : OpSize :=
  if vex.w then .i64 else .i32

def loadVexRm (modrm : ModRm) (size : OpSize) : Emit (Ref × Nat) :=
  loadRm modrm (vexEffectivePrefixes prefixes vex) bytes (cursor + 1) size

def decodeVexBmi1Andn : Emit Nat := do
  requireVexLzNp vex opcode
  let size := vexOperandSize vex
  let modrm ← parseModrm bytes (cursor + 1)
  let (src2, used) ← loadVexRm prefixes vex bytes cursor modrm size
  let src1 ← pushRef (.loadReg (mapVexReg vex.vvvv) size)
  let allOnes ← pushConstantRef size.mask size
  let notSrc1 ← pushBinopRef .xor src1 allOnes size
  let result ← pushBinopRef .and notSrc1 src2 size
  pushStmt (.storeReg (mapReg modrm.reg (vexRex vex) true) result size)
  let cf ← pushConstantRef 0 size
  pushResultFlagBits result size cf false
  return 1 + used

-- The result and the carry of BLSR (1), BLSMSK (2) and BLSI (3).
def emitBls (reg : BitVec 3) (src zero one : Ref) (size : OpSize) : Emit (Ref × Ref) := do
  match reg with
  | 1 =>
    let minusOne ← pushBinopRef .sub src one size
    let result ← pushBinopRef .and src minusOne size
    let cf ← pushRef (.compare .eq src zero size)
    return (result, cf)
  | 2 =>
    let minusOne ← pushBinopRef .sub src one size
    let result ← pushBinopRef .xor src minusOne size
    let cf ← pushRef (.compare .eq src zero size)
    return (result, cf)
  | _ =>
    let negated ← pushBinopRef .sub zero src size
    let result ← pushBinopRef .and src negated size
    let cf ← pushRef (.compare .ne src zero size)
    return (result, cf)

def decodeVexBmi1BlsGroup : Emit Nat := do
  requireVexLzNp vex opcode
  let size := vexOperandSize vex
  let modrm ← parseModrm bytes (cursor + 1)
  rejectIf (modrm.reg ∉ [1, 2, 3]) (.unsupportedOpcode 0xF3)
  let (src, used) ← loadVexRm prefixes vex bytes cursor modrm size
  let zero ← pushConstantRef 0 size
  let one ← pushConstantRef 1 size
  let (result, cf) ← emitBls modrm.reg src zero one size
  pushStmt (.storeReg (mapVexReg vex.vvvv) result size)
  pushResultFlagBits result size cf false
  return 1 + used

-- The field of `src` that starts at `start` and has `len` bits. Both comparisons set the flags that
-- the selections read.
def emitBextrField (src start len : Ref) (size : OpSize) : Emit Ref := do
  let shifted ← pushBinopRef .shr src start size
  let one ← pushConstantRef 1 size
  let maskPlusOne ← pushBinopRef .shl one len size
  let maskCandidate ← pushBinopRef .sub maskPlusOne one size
  let allOnes ← pushConstantRef size.mask size
  let width ← pushConstantRef (.ofNat 64 size.bitWidth) size
  let _ ← pushRef (.compare .uge len width size)
  let mask ← pushRef (.select .uge allOnes maskCandidate size)
  let masked ← pushBinopRef .and shifted mask size
  let zero ← pushConstantRef 0 size
  let _ ← pushRef (.compare .uge start width size)
  pushRef (.select .uge zero masked size)

def decodeVexBmi1Bextr : Emit Nat := do
  requireVexLzNp vex opcode
  let size := vexOperandSize vex
  let modrm ← parseModrm bytes (cursor + 1)
  let (src, used) ← loadVexRm prefixes vex bytes cursor modrm size
  let control ← pushRef (.loadReg (mapVexReg vex.vvvv) size)
  let lowByteMask ← pushConstantRef 0xFF size
  let start ← pushBinopRef .and control lowByteMask size
  let eight ← pushConstantRef 8 size
  let lenShifted ← pushBinopRef .shr control eight size
  let len ← pushBinopRef .and lenShifted lowByteMask size
  let result ← emitBextrField src start len size
  pushStmt (.storeReg (mapReg modrm.reg (vexRex vex) true) result size)
  let cf ← pushConstantRef 0 size
  pushResultFlagBits result size cf true
  return 1 + used

-- The conversions between half and single precision accept the reserved `vvvv` only.
def rejectF16cForm : Parse Unit :=
  rejectIf (vex.pp ≠ 1 || vex.w || vex.l || vex.vvvv ≠ 0) (.unsupportedOpcode opcode)

def loadF16cSrc (modrm : ModRm) : Emit Ref := do
  if modrm.mod = 3 then
    pushRef (.loadVecReg (mapXmmIndex modrm.rm (vexRex vex) false))
  else
    let (addr, _) ← emitAddrWithSize modrm (vexEffectivePrefixes prefixes vex) bytes (cursor + 1)
    let bits ← pushRef (.loadMem addr .i64)
    pushRef (.xmmFromGpr bits .i64)

def decodeVexVcvtph2ps : Emit Nat := do
  rejectF16cForm vex opcode
  let modrm ← parseModrm bytes (cursor + 1)
  let used ← bytesForModrm modrm bytes (cursor + 1)
  let src ← loadF16cSrc prefixes vex bytes cursor modrm
  let result ← pushRef (.vecF16Cvt .phToPs src 0)
  pushStmt (.storeVecReg (mapXmmIndex modrm.reg (vexRex vex) true) result)
  return 1 + used

def storeF16cDst (modrm : ModRm) (result : Ref) : Emit Unit := do
  if modrm.mod = 3 then
    pushStmt (.storeVecReg (mapXmmIndex modrm.rm (vexRex vex) false) result)
  else
    let (addr, _) ← emitAddrWithSize modrm (vexEffectivePrefixes prefixes vex) bytes (cursor + 1)
    let bits ← pushRef (.gprFromXmm result .i64)
    pushStmt (.storeMem addr bits .i64)

def decodeVexVcvtps2ph : Emit Nat := do
  rejectF16cForm vex opcode
  let modrm ← parseModrm bytes (cursor + 1)
  let used ← bytesForModrm modrm bytes (cursor + 1)
  let imm ← readImm bytes (cursor + 1 + used) 1
  let src ← pushRef (.loadVecReg (mapXmmIndex modrm.reg (vexRex vex) true))
  let result ← pushRef (.vecF16Cvt .psToPh src (imm.setWidth 8))
  storeF16cDst prefixes vex bytes cursor modrm result
  return 1 + used + 1

def decodeVex : Emit Nat := do
  match prefixes.vex with
  | none => throw .invalidVex
  | some vex =>
    rejectIf prefixes.any (.unsupportedOpcode opcode)
    match vex.mmmm, opcode with
    | 2, 0x13 => decodeVexVcvtph2ps prefixes vex opcode bytes cursor
    | 2, 0xF2 => decodeVexBmi1Andn prefixes vex opcode bytes cursor
    | 2, 0xF3 => decodeVexBmi1BlsGroup prefixes vex opcode bytes cursor
    | 2, 0xF7 => decodeVexBmi1Bextr prefixes vex opcode bytes cursor
    | 3, 0x1D => decodeVexVcvtps2ph prefixes vex opcode bytes cursor
    | _, _ => throw (.unsupportedOpcode opcode)

end Vex

section Sse

-- The forms behind 0F 3A that require the operand-size prefix.
def reject0F3AForm : Parse Unit :=
  rejectIf (!prefixes.operandOverride || prefixes.rep.isSome || prefixes.lock ||
    prefixes.segment.isSome || prefixes.addrOverride) (.unsupportedOpcode opcode)

def loadXmmRm (modrm : ModRm) : Emit Ref := do
  if modrm.mod = 3 then
    pushRef (.loadVecReg (mapXmmIndex modrm.rm prefixes.rex false))
  else
    let (addr, _) ← emitAddrWithSize modrm prefixes bytes (cursor + 1)
    pushRef (.loadVec addr)

def decodePclmulqdq : Emit Nat := do
  reject0F3AForm prefixes opcode
  let modrm ← parseModrm bytes (cursor + 1)
  let used ← bytesForModrm modrm bytes (cursor + 1)
  let imm ← readImm bytes (cursor + 1 + used) 1
  let dstXmm := mapXmmIndex modrm.reg prefixes.rex true
  let lhs ← pushRef (.loadVecReg dstXmm)
  let rhs ← loadXmmRm prefixes bytes cursor modrm
  let result ← pushRef (.vecClMul lhs rhs (imm.getLsbD 0) (imm.getLsbD 4))
  pushStmt (.storeVecReg dstXmm result)
  return 2 + used + 1

-- The lengths in EAX and EDX of PCMPESTRM and PCMPESTRI.
def emitExplicitLengths : Emit (Option Ref × Option Ref) := do
  if opcode = 0x60 ∨ opcode = 0x61 then
    let lhsLen ← pushRef (.loadReg .rax .i32)
    let rhsLen ← pushRef (.loadReg .rdx .i32)
    return (some lhsLen, some rhsLen)
  else
    return (none, none)

def emitPcmpxstrResult (lhs rhs : Ref) (lhsLen rhsLen : Option Ref) (imm8 : U8) : Emit Unit := do
  if opcode = 0x60 ∨ opcode = 0x62 then
    let result ← pushRef (.pcmpStrMask lhs rhs lhsLen rhsLen imm8)
    pushStmt (.storeVecReg 0 result)
  else
    let result ← pushRef (.pcmpStrIndex lhs rhs lhsLen rhsLen imm8)
    pushStmt (.storeReg .rcx result .i32)

def emitPcmpxstrFlags (lhs rhs : Ref) (lhsLen rhsLen : Option Ref) (imm8 : U8) : Emit Unit := do
  let packed ← pushRef (.pcmpStrFlags lhs rhs lhsLen rhsLen imm8)
  let cf ← pushShiftedBitRef packed 0 .i64
  let zf ← pushShiftedBitRef packed 1 .i64
  let sf ← pushShiftedBitRef packed 2 .i64
  let of ← pushShiftedBitRef packed 3 .i64
  let zero ← pushConstantRef 0 .i64
  pushStmt (.storeCarry cf)
  pushStmt (.storeRflagsFromBits (some zero) (some zero) zf sf of)

def decodePcmpxstr : Emit Nat := do
  reject0F3AForm prefixes opcode
  let modrm ← parseModrm bytes (cursor + 1)
  let used ← bytesForModrm modrm bytes (cursor + 1)
  let imm ← readImm bytes (cursor + 1 + used) 1
  let lhs ← pushRef (.loadVecReg (mapXmmIndex modrm.reg prefixes.rex true))
  let rhs ← loadXmmRm prefixes bytes cursor modrm
  let (lhsLen, rhsLen) ← emitExplicitLengths opcode
  emitPcmpxstrResult opcode lhs rhs lhsLen rhsLen (imm.setWidth 8)
  emitPcmpxstrFlags lhs rhs lhsLen rhsLen (imm.setWidth 8)
  return 2 + used + 1

end Sse

end Prisma.Decoder
