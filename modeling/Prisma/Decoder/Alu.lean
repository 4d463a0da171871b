import Prisma.Decoder.Flags

namespace Prisma.Decoder

variable (prefixes : PrefixSet) (opcode : U8) (bytes : List U8) (cursor : Nat)

-- `i64::from(imm as i32)`
def signExtendImm32 (imm : U64) : U64 :=
  (imm.setWidth 32).signExtend 64

-- The number of bytes of a full-size immediate: 32 bits also for 64-bit operands.
def fullImmBytes (size : OpSize) : Nat :=
  if size = .i16 then 2 else 4

section RegisterForms

-- `op r/m, r` for the operations that store their result.
def decodeBinopRmRWithSize (kind : BinOpKind) (size : OpSize) : Emit Nat := do
  let modrm ← parseModrm bytes (cursor + 1)
  let rhs ← pushRef (.loadReg (mapReg modrm.reg prefixes.rex true) size)
  let (dst, used) ← rmOperand modrm prefixes bytes (cursor + 1)
  let lhs ← dst.load size
  let result ← pushRef (.binOp kind lhs rhs size)
  dst.store result size
  pushAluFlags kind lhs rhs size
  return 1 + used

def decodeBinopRmR (kind : BinOpKind) : Emit Nat :=
  decodeBinopRmRWithSize prefixes bytes cursor kind (operandSize prefixes)

-- `op r, r/m` for the operations that store their result.
def decodeBinopRRmWithSize (kind : BinOpKind) (size : OpSize) : Emit Nat := do
  let modrm ← parseModrm bytes (cursor + 1)
  let dstReg := mapReg modrm.reg prefixes.rex true
  let lhs ← pushRef (.loadReg dstReg size)
  let (rhs, used) ← loadRm modrm prefixes bytes (cursor + 1) size
  let result ← pushRef (.binOp kind lhs rhs size)
  pushStmt (.storeReg dstReg result size)
  pushAluFlags kind lhs rhs size
  return 1 + used

def decodeBinopRRm (kind : BinOpKind) : Emit Nat :=
  decodeBinopRRmWithSize prefixes bytes cursor kind (operandSize prefixes)

def decodeAdcSbbRmR (isSbb : Bool) (size : OpSize) : Emit Nat := do
  let modrm ← parseModrm bytes (cursor + 1)
  let src ← pushRef (.loadReg (mapReg modrm.reg prefixes.rex true) size)
  let (operand, used) ← rmOperand modrm prefixes bytes (cursor + 1)
  let dst ← operand.load size
  let result ← emitAdcSbbValue isSbb dst src size
  operand.store result size
  pushAdcSbbRflagsBits isSbb dst src result size
  return 1 + used

def decodeAdcSbbRRm (isSbb : Bool) (size : OpSize) : Emit Nat := do
  let modrm ← parseModrm bytes (cursor + 1)
  let dstReg := mapReg modrm.reg prefixes.rex true
  let dst ← pushRef (.loadReg dstReg size)
  let (src, used) ← loadRm modrm prefixes bytes (cursor + 1) size
  emitAdcSbb isSbb dst src dstReg size
  return 1 + used

def decodeCmpRmRWithSize (size : OpSize) : Emit Nat := do
  let modrm ← parseModrm bytes (cursor + 1)
  let rhs ← pushRef (.loadReg (mapReg modrm.reg prefixes.rex true) size)
  let (lhs, used) ← loadRm modrm prefixes bytes (cursor + 1) size
  let _ ← pushCmpFlags lhs rhs size
  return 1 + used

def decodeCmpRmR : Emit Nat :=
  decodeCmpRmRWithSize prefixes bytes cursor (operandSize prefixes)

def decodeCmpRRmWithSize (size : OpSize) : Emit Nat := do
  let modrm ← parseModrm bytes (cursor + 1)
  let lhs ← pushRef (.loadReg (mapReg modrm.reg prefixes.rex true) size)
  let (rhs, used) ← loadRm modrm prefixes bytes (cursor + 1) size
  let _ ← pushCmpFlags lhs rhs size
  return 1 + used

def decodeTestRmRWithSize (size : OpSize) : Emit Nat := do
  let modrm ← parseModrm bytes (cursor + 1)
  let rhs ← pushRef (.loadReg (mapReg modrm.reg prefixes.rex true) size)
  let (lhs, used) ← loadRm modrm prefixes bytes (cursor + 1) size
  pushAluFlags .and lhs rhs size
  return 1 + used

def decodeTestRmR : Emit Nat :=
  decodeTestRmRWithSize prefixes bytes cursor (operandSize prefixes)

end RegisterForms

section ImmediateForms

def isAccImmByte : Bool :=
  opcode ∈ [0x04, 0x0C, 0x14, 0x1C, 0x24, 0x2C, 0x34, 0x3C, 0xA8]

def accImmSize : OpSize :=
  if isAccImmByte opcode then .i8 else operandSize prefixes

def accImmBytes : Nat :=
  if isAccImmByte opcode then 1 else fullImmBytes (accImmSize prefixes opcode)

def accImmOp : Parse BinOpKind :=
  match opcode with
  | 0x04 | 0x05 => .ok .add
  | 0x0C | 0x0D => .ok .or
  | 0x24 | 0x25 => .ok .and
  | 0x2C | 0x2D => .ok .sub
  | 0x34 | 0x35 => .ok .xor
  | _ => .error (.unsupportedOpcode opcode)

def emitAccImm (lhs rhs : Ref) (size : OpSize) : Emit Unit := do
  match opcode with
  | 0x3C | 0x3D =>
    let _ ← pushCmpFlags lhs rhs size
  | 0xA8 | 0xA9 => pushAluFlags .and lhs rhs size
  | 0x14 | 0x15 => emitAdcSbb false lhs rhs .rax size
  | 0x1C | 0x1D => emitAdcSbb true lhs rhs .rax size
  | _ =>
    let op ← accImmOp opcode
    let result ← pushRef (.binOp op lhs rhs size)
    pushStmt (.storeReg .rax result size)
    pushAluFlags op lhs rhs size

-- `op AL/AX/EAX/RAX, imm`
def decodeAccImm : Emit Nat := do
  rejectIf (prefixes.rep.isSome || prefixes.lock || prefixes.segment.isSome)
    (.unsupportedOpcode opcode)
  let size := accImmSize prefixes opcode
  let immBytes := accImmBytes prefixes opcode
  let imm ← readImm bytes (cursor + 1) immBytes
  let imm := if !isAccImmByte opcode && size = .i64 then signExtendImm32 imm else imm
  let lhs ← pushRef (.loadReg .rax size)
  let rhs ← pushRef (.constant imm size)
  emitAccImm opcode lhs rhs size
  return 1 + immBytes

-- `None` stands for CMP. ADC and SBB are told apart by the reg field.
def group1Kind (reg : BitVec 3) : Option BinOpKind :=
  match reg with
  | 1 => some .or
  | 4 => some .and
  | 6 => some .xor
  | 0 | 2 => some .add
  | 3 | 5 => some .sub
  | _ => none

def emitGroup1 (reg : BitVec 3) (dst : RmOperand) (lhs imm : Ref) (size : OpSize) : Emit Unit := do
  match group1Kind reg with
  | none =>
    let _ ← pushCmpFlags lhs imm size
  | some kind =>
    if reg = 2 ∨ reg = 3 then
      let result ← emitAdcSbbValue (reg = 3) lhs imm size
      dst.store result size
      pushAdcSbbRflagsBits (reg = 3) lhs imm result size
    else
      let result ← pushRef (.binOp kind lhs imm size)
      dst.store result size
      pushAluFlags kind lhs imm size

def aluRmImmSize : OpSize :=
  if opcode = 0x80 then .i8 else operandSize prefixes

def aluRmImmBytes : Parse Nat :=
  match opcode with
  | 0x80 | 0x83 => .ok 1
  | 0x81 => .ok (fullImmBytes (aluRmImmSize prefixes opcode))
  | _ => .error (.unsupportedOpcode opcode)

def aluRmImm (immOffset immBytes : Nat) : Parse U64 := do
  if opcode = 0x83 then
    return (← byteAt bytes immOffset).signExtend 64
  else
    let imm ← readImm bytes immOffset immBytes
    return if opcode = 0x81 ∧ aluRmImmSize prefixes opcode = .i64 then signExtendImm32 imm else imm

-- `op r/m, imm` (80, 81 and 83).
def decodeAluRmImm (opcodeGuestPc : U64) : Emit Nat := do
  let size := aluRmImmSize prefixes opcode
  let modrm ← parseModrm bytes (cursor + 1)
  let modrmBytes ← bytesForModrm modrm bytes (cursor + 1)
  let immBytes ← aluRmImmBytes prefixes opcode
  let imm ← aluRmImm prefixes opcode bytes (cursor + 1 + modrmBytes) immBytes
  let immRef ← pushRef (.constant imm size)
  let ripAfter := opcodeGuestPc + BitVec.ofNat 64 (1 + modrmBytes + immBytes)
  let (dst, _) ← rmOperandAt modrm prefixes bytes (cursor + 1) ripAfter
  let lhs ← dst.load size
  emitGroup1 modrm.reg dst lhs immRef size
  return 1 + modrmBytes + immBytes

def signExtendImm8ToSize (imm : U8) (size : OpSize) : U64 :=
  match size with
  | .i64 => imm.signExtend 64
  | .i32 => (imm.signExtend 32).setWidth 64
  | .i16 => (imm.signExtend 16).setWidth 64
  | .i8 => imm.setWidth 64

def imulImmBytes : Nat :=
  if opcode = 0x6B then 1 else fullImmBytes (operandSize prefixes)

def imulImmValue (imm : U64) (size : OpSize) : U64 :=
  if opcode = 0x6B then signExtendImm8ToSize (imm.setWidth 8) size
  else if size = .i64 then signExtendImm32 imm
  else imm

-- `IMUL r, r/m, imm` (69 and 6B).
def decodeImulImm : Emit Nat := do
  let size := operandSize prefixes
  let modrm ← parseModrm bytes (cursor + 1)
  let modrmBytes ← bytesForModrm modrm bytes (cursor + 1)
  let immBytes := imulImmBytes prefixes opcode
  let imm ← readImm bytes (cursor + 1 + modrmBytes) immBytes
  let (lhs, _) ← loadRm modrm prefixes bytes (cursor + 1) size
  let rhs ← pushRef (.constant (imulImmValue opcode imm size) size)
  let result ← pushRef (.binOp .mul lhs rhs size)
  pushStmt (.storeReg (mapReg modrm.reg prefixes.rex true) result size)
  return 1 + modrmBytes + immBytes

end ImmediateForms

section MulDiv

def emitExtendToI64 (value : Ref) (fromSize : OpSize) (isSigned : Bool) : Emit Ref := do
  if fromSize = .i64 then
    return value
  else
    pushRef (.extend value fromSize .i64 isSigned)

def emitRaxRdxPair (raxRef rhsRef : Ref) (size : OpSize) (loKind hiKind : BinOpKind) :
    Emit Unit := do
  let loRef ← pushRef (.binOp loKind raxRef rhsRef size)
  let hiRef ← pushRef (.binOp hiKind raxRef rhsRef size)
  pushStmt (.storeReg .rax loRef size)
  pushStmt (.storeReg .rdx hiRef size)

def emitMulImulPair (raxRef rhsRef : Ref) (size : OpSize) (isSigned : Bool) : Emit Unit := do
  if size = .i64 then
    emitRaxRdxPair raxRef rhsRef size .mul (if isSigned then .sMulHi else .uMulHi)
  else
    let lhs ← emitExtendToI64 raxRef size isSigned
    let rhs ← emitExtendToI64 rhsRef size isSigned
    let product ← pushRef (.binOp .mul lhs rhs .i64)
    if size = .i8 then
      pushStmt (.storeReg .rax product .i16)
    else
      let shift ← pushRef (.constant (.ofNat 64 size.bitWidth) .i64)
      let high ← pushRef (.binOp .shr product shift .i64)
      pushStmt (.storeReg .rax product size)
      pushStmt (.storeReg .rdx high size)

-- RDX:RAX divided by a 64-bit operand.
def emitWideDivPair (raxRef rhsRef : Ref) (isSigned : Bool) : Emit Unit := do
  let rdxRef ← pushRef (.loadReg .rdx .i64)
  emitDivisorZeroTrap rhsRef
  let quotient ← pushRef (.wideDiv rdxRef raxRef rhsRef isSigned .quotient)
  let remainder ← pushRef (.wideDiv rdxRef raxRef rhsRef isSigned .remainder)
  pushStmt (.storeReg .rax quotient .i64)
  pushStmt (.storeReg .rdx remainder .i64)

-- The dividend AX, DX:AX or EDX:EAX of a narrow division.
def emitDividend (raxRef : Ref) (size : OpSize) (isSigned : Bool) : Emit Ref := do
  if size = .i8 then
    let ax ← pushRef (.loadReg .rax .i16)
    emitExtendToI64 ax .i16 isSigned
  else
    let low ← emitExtendToI64 raxRef size false
    let rdx ← pushRef (.loadReg .rdx size)
    let high ← emitExtendToI64 rdx size false
    let shift ← pushConstantRef (.ofNat 64 size.bitWidth) .i64
    let shiftedHigh ← pushBinopRef .shl high shift .i64
    let combined ← pushBinopRef .or shiftedHigh low .i64
    if isSigned ∧ size = .i16 then
      emitExtendToI64 combined .i32 true
    else
      return combined

-- AL and AH from quotient and remainder of an 8-bit division.
def emitDivBytes (quotient remainder : Ref) : Emit Unit := do
  let quotientByte ← pushRef (.truncate quotient .i8)
  let remainderByte ← pushRef (.truncate remainder .i8)
  let quotientWord ← pushRef (.extend quotientByte .i8 .i16 false)
  let remainderWord ← pushRef (.extend remainderByte .i8 .i16 false)
  let shift ← pushConstantRef 8 .i16
  let remHi ← pushRef (.binOp .shl remainderWord shift .i16)
  let ax ← pushRef (.binOp .or remHi quotientWord .i16)
  pushStmt (.storeReg .rax ax .i16)

def emitDivIdivPair (raxRef rhsRef : Ref) (size : OpSize) (isSigned : Bool) : Emit Unit := do
  if size = .i64 then
    emitWideDivPair raxRef rhsRef isSigned
  else
    let dividend ← emitDividend raxRef size isSigned
    let divisor ← emitExtendToI64 rhsRef size isSigned
    emitDivisorZeroTrap divisor
    let quotient ← pushBinopRef (if isSigned then .sDiv else .uDiv) dividend divisor .i64
    let remainder ← pushBinopRef (if isSigned then .sMod else .uMod) dividend divisor .i64
    emitDivQuotientOverflowTrap quotient size isSigned
    if size = .i8 then
      emitDivBytes quotient remainder
    else
      pushStmt (.storeReg .rax quotient size)
      pushStmt (.storeReg .rdx remainder size)

end MulDiv

section Groups

def group3Size : OpSize :=
  if opcode = 0xF6 then .i8 else operandSize prefixes

-- `TEST r/m, imm`
def decodeGroup3Test (modrm : ModRm) (size : OpSize) : Emit Nat := do
  let modrmBytes ← bytesForModrm modrm bytes (cursor + 1)
  let immBytes := if opcode = 0xF6 then 1 else fullImmBytes size
  let imm ← readImm bytes (cursor + 1 + modrmBytes) immBytes
  let imm := if opcode = 0xF7 ∧ size = .i64 then signExtendImm32 imm else imm
  let rhs ← pushRef (.constant imm size)
  let (lhs, _) ← loadRm modrm prefixes bytes (cursor + 1) size
  pushAluFlags .and lhs rhs size
  return 1 + modrmBytes + immBytes

-- NOT (`dst ^ ones`) and NEG (`0 - dst`).
def emitNotNeg (reg : BitVec 3) (value : Ref) (size : OpSize) : Emit Ref := do
  if reg = 2 then
    let mask ← pushRef (.constant size.mask size)
    pushRef (.binOp .xor value mask size)
  else
    let zero ← pushRef (.constant 0 size)
    pushRef (.binOp .sub zero value size)

def decodeGroup3Unary (modrm : ModRm) (size : OpSize) : Emit Nat := do
  let (dst, used) ← rmOperand modrm prefixes bytes (cursor + 1)
  let value ← dst.load size
  let result ← emitNotNeg modrm.reg value size
  dst.store result size
  return 1 + used

-- MUL, IMUL, DIV and IDIV.
def emitMulDiv (reg : BitVec 3) (raxRef rhsRef : Ref) (size : OpSize) : Emit Unit :=
  match reg with
  | 4 => emitMulImulPair raxRef rhsRef size false
  | 5 => emitMulImulPair raxRef rhsRef size true
  | 6 => emitDivIdivPair raxRef rhsRef size false
  | _ => emitDivIdivPair raxRef rhsRef size true

def decodeGroup3MulDiv (modrm : ModRm) (size : OpSize) : Emit Nat := do
  let raxRef ← pushRef (.loadReg .rax size)
  let (rhsRef, used) ← loadRm modrm prefixes bytes (cursor + 1) size
  emitMulDiv modrm.reg raxRef rhsRef size
  return 1 + used

def decodeGroup3 : Emit Nat := do
  let size := group3Size prefixes opcode
  let modrm ← parseModrm bytes (cursor + 1)
  match modrm.reg with
  | 0 => decodeGroup3Test prefixes opcode bytes cursor modrm size
  | 1 => throw (.unsupportedOpcode opcode)
  | 2 | 3 => decodeGroup3Unary prefixes bytes cursor modrm size
  | _ => decodeGroup3MulDiv prefixes bytes cursor modrm size

-- INC and DEC.
def emitIncDec (modrm : ModRm) (kind : BinOpKind) (size : OpSize) : Emit Nat := do
  let one ← pushRef (.constant 1 size)
  let (dst, used) ← rmOperand modrm prefixes bytes (cursor + 1)
  let value ← dst.load size
  let result ← pushRef (.binOp kind value one size)
  dst.store result size
  emitAluFlagsPreserveCarry kind value one size
  return 1 + used

def decodeGroup4 : Emit Nat := do
  rejectIf (prefixes.rep.isSome || prefixes.lock || prefixes.segment.isSome)
    (.unsupportedOpcode 0xFE)
  let modrm ← parseModrm bytes (cursor + 1)
  match modrm.reg with
  | 0 => emitIncDec prefixes bytes cursor modrm .add .i8
  | 1 => emitIncDec prefixes bytes cursor modrm .sub .i8
  | _ => throw (.unsupportedOpcode 0xFE)

-- The target of an indirect call or jump. The ref of the target is allocated first, before the
-- statements for the address of a memory operand.
def emitIndirectTarget (modrm : ModRm) : Emit (Ref × Nat) := do
  let targetRef ← allocRef
  if modrm.mod = 3 then
    push (some targetRef) (.loadReg (mapReg modrm.rm prefixes.rex false) .i64)
    return (targetRef, 1)
  else
    let (addrRef, used) ← emitAddrWithSize modrm prefixes bytes (cursor + 1)
    push (some targetRef) (.loadMem addrRef .i64)
    return (targetRef, used)

-- PUSH of a value that has been computed.
def emitPush (value : Ref) : Emit Unit := do
  pushStmt (.rspAdjust (-8))
  let rsp ← pushRef (.loadReg .rsp .i64)
  pushStmt (.storeMem rsp value .i64)

def decodeGroup5 (opcodeGuestPc : U64) : Emit Nat := do
  let size := operandSize prefixes
  let modrm ← parseModrm bytes (cursor + 1)
  match modrm.reg with
  | 0 => emitIncDec prefixes bytes cursor modrm .add size
  | 1 => emitIncDec prefixes bytes cursor modrm .sub size
  | 2 =>
    let (targetRef, used) ← emitIndirectTarget prefixes bytes cursor modrm
    pushStmt (.callReg targetRef (addSignedDisp opcodeGuestPc (.ofNat 64 (1 + used))))
    return 1 + used
  | 4 =>
    let (targetRef, used) ← emitIndirectTarget prefixes bytes cursor modrm
    pushStmt (.jumpReg targetRef)
    return 1 + used
  | 6 =>
    let (value, used) ← loadRm modrm prefixes bytes (cursor + 1) .i64
    emitPush value
    return 1 + used
  | _ => throw (.unsupportedOpcode 0xFF)

end Groups

end Prisma.Decoder
