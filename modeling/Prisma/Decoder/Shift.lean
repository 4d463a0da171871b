import Prisma.Decoder.Alu

namespace Prisma.Decoder

variable (prefixes : PrefixSet) (opcode : U8) (bytes : List U8) (cursor : Nat)

section RotateThroughCarry

-- The rotated value and the carry-out of RCL or RCR by one.
def emitRotateBy1 (isRcr : Bool) (cf dst one wm1 : Ref) (size : OpSize) : Emit (Ref × Ref) := do
  if isRcr then
    let newCf ← pushBinopRef .and dst one size
    let shifted ← pushBinopRef .shr dst one size
    let cfTop ← pushBinopRef .shl cf wm1 size
    let newDst ← pushBinopRef .or shifted cfTop size
    return (newDst, newCf)
  else
    let top ← pushBinopRef .shr dst wm1 size
    let newCf ← pushBinopRef .and top one size
    let shifted ← pushBinopRef .shl dst one size
    let newDst ← pushBinopRef .or shifted cf size
    return (newDst, newCf)

def emitRclRcrBy1 (isRcr : Bool) (dstReg : Gpr) (size : OpSize) : Emit Unit := do
  let cf ← pushRef .loadCarry
  let dst ← pushRef (.loadReg dstReg size)
  let one ← pushRef (.constant 1 size)
  let wm1 ← pushRef (.constant (.ofNat 64 (size.bitWidth - 1)) size)
  let (newDst, newCf) ← emitRotateBy1 isRcr cf dst one wm1 size
  pushStmt (.storeReg dstReg newDst size)
  pushStmt (.storeCarry newCf)

-- The refs that both directions of a rotation by a count use.
structure RotateRefs where
  cf : Ref
  dst : Ref
  zero : Ref
  one : Ref
  count : Ref
  countMinusOne : Ref
  widthMinusCount : Ref
  rotateWidthMinusCount : Ref

-- `if count == 1 { zero } else { candidate }`
def emitWrap (refs : RotateRefs) (candidate : Ref) (size : OpSize) : Emit Ref := do
  let _ ← pushRef (.cmpFlags refs.count refs.one size)
  pushRef (.select .eq refs.zero candidate size)

def emitRotate (isRcr : Bool) (refs : RotateRefs) (size : OpSize) : Emit (Ref × Ref) := do
  if isRcr then
    let shifted ← pushBinopRef .shr refs.dst refs.count size
    let cfTop ← pushBinopRef .shl refs.cf refs.widthMinusCount size
    let wrapCandidate ← pushBinopRef .shl refs.dst refs.rotateWidthMinusCount size
    let wrap ← emitWrap refs wrapCandidate size
    let dstWithCf ← pushBinopRef .or shifted cfTop size
    let rotatedDst ← pushBinopRef .or dstWithCf wrap size
    let cfCandidateShifted ← pushBinopRef .shr refs.dst refs.countMinusOne size
    let rotatedCf ← pushBinopRef .and cfCandidateShifted refs.one size
    return (rotatedDst, rotatedCf)
  else
    let shifted ← pushBinopRef .shl refs.dst refs.count size
    let cfInsert ← pushBinopRef .shl refs.cf refs.countMinusOne size
    let wrapCandidate ← pushBinopRef .shr refs.dst refs.rotateWidthMinusCount size
    let wrap ← emitWrap refs wrapCandidate size
    let dstWithCf ← pushBinopRef .or shifted cfInsert size
    let rotatedDst ← pushBinopRef .or dstWithCf wrap size
    let cfCandidateShifted ← pushBinopRef .shr refs.dst refs.widthMinusCount size
    let rotatedCf ← pushBinopRef .and cfCandidateShifted refs.one size
    return (rotatedDst, rotatedCf)

-- Rotates the `width + 1` bits of carry and operand by the count, which is masked as x86 does and
-- reduced modulo `width + 1`. A zero count changes nothing.
def emitRclRcrValueCount (isRcr : Bool) (dst rawCount : Ref) (size : OpSize) :
    Emit (Ref × Ref) := do
  let cf ← pushRef .loadCarry
  let zero ← pushConstantRef 0 size
  let one ← pushConstantRef 1 size
  let mask ← pushConstantRef (if size = .i64 then 0x3F else 0x1F) size
  let width ← pushConstantRef (.ofNat 64 size.bitWidth) size
  let rotateWidth ← pushConstantRef (.ofNat 64 (size.bitWidth + 1)) size
  let maskedCount ← pushBinopRef .and rawCount mask size
  let count ← pushBinopRef .uMod maskedCount rotateWidth size
  let countMinusOne ← pushBinopRef .sub count one size
  let widthMinusCount ← pushBinopRef .sub width count size
  let rotateWidthMinusCount ← pushBinopRef .sub rotateWidth count size
  let (rotatedDst, rotatedCf) ← emitRotate isRcr
    { cf, dst, zero, one, count, countMinusOne, widthMinusCount, rotateWidthMinusCount } size
  let _ ← pushRef (.cmpFlags count zero size)
  let finalDst ← pushRef (.select .eq dst rotatedDst size)
  let finalCf ← pushRef (.select .eq cf rotatedCf size)
  return (finalDst, finalCf)

def emitRclRcrRegCount (isRcr : Bool) (dstReg : Gpr) (rawCount : Ref) (size : OpSize) :
    Emit Unit := do
  let dst ← pushRef (.loadReg dstReg size)
  let (finalDst, finalCf) ← emitRclRcrValueCount isRcr dst rawCount size
  pushStmt (.storeReg dstReg finalDst size)
  pushStmt (.storeCarry finalCf)

def emitRclRcrCl (isRcr : Bool) (dstReg : Gpr) (size : OpSize) : Emit Unit := do
  let rawCount ← pushRef (.loadReg .rcx .i8)
  emitRclRcrRegCount isRcr dstReg rawCount size

def emitRclRcrImm (isRcr : Bool) (dstReg : Gpr) (imm : U8) (size : OpSize) : Emit Unit := do
  let rawCount ← pushRef (.constant (imm.setWidth 64) .i8)
  emitRclRcrRegCount isRcr dstReg rawCount size

end RotateThroughCarry

section Group2

def group2Size : OpSize :=
  if opcode ∈ [0xC0, 0xD0, 0xD2] then .i8 else operandSize prefixes

-- The count and the number of bytes of the immediate that it comes from.
def emitShiftCount (immOffset : Nat) : Emit (Ref × Nat) := do
  match opcode with
  | 0xC0 | 0xC1 =>
    let imm ← byteAt bytes immOffset
    let count ← pushRef (.constant (imm.setWidth 64) .i8)
    return (count, 1)
  | 0xD0 | 0xD1 =>
    let count ← pushRef (.constant 1 .i8)
    return (count, 0)
  | 0xD2 | 0xD3 =>
    let count ← pushRef (.loadReg .rcx .i8)
    return (count, 0)
  | _ => throw (.unsupportedOpcode opcode)

-- RCL and RCR.
def decodeGroup2RclRcr (modrm : ModRm) (modrmBytes : Nat) (size : OpSize) : Emit Nat := do
  let isRcr := modrm.reg == 3
  let dstReg := mapReg modrm.rm prefixes.rex false
  let immOffset := cursor + 1 + modrmBytes
  if (opcode = 0xD0 ∨ opcode = 0xD1) ∧ modrm.mod = 3 then
    emitRclRcrBy1 isRcr dstReg size
    return 1 + modrmBytes
  else if (opcode = 0xC0 ∨ opcode = 0xC1) ∧ modrm.mod = 3 then
    let imm ← byteAt bytes immOffset
    emitRclRcrImm isRcr dstReg imm size
    return 1 + modrmBytes + 1
  else if (opcode = 0xD2 ∨ opcode = 0xD3) ∧ modrm.mod = 3 then
    emitRclRcrCl isRcr dstReg size
    return 1 + modrmBytes
  else
    let (addr, _) ← emitAddrWithSize modrm prefixes bytes (cursor + 1)
    let value ← pushRef (.loadMem addr size)
    let (rawCount, extraBytes) ← emitShiftCount opcode bytes immOffset
    let (newValue, newCf) ← emitRclRcrValueCount isRcr value rawCount size
    pushStmt (.storeMem addr newValue size)
    pushStmt (.storeCarry newCf)
    return 1 + modrmBytes + extraBytes

def group2Op (reg : BitVec 3) : Parse BinOpKind :=
  match reg with
  | 0 => .ok .rol
  | 1 => .ok .ror
  | 4 => .ok .shl
  | 5 => .ok .shr
  | 7 => .ok .sar
  | _ => .error (.unsupportedOpcode opcode)

-- Shifts and rotations by an immediate, by one and by CL.
def decodeGroup2 : Emit Nat := do
  let size := group2Size prefixes opcode
  let modrm ← parseModrm bytes (cursor + 1)
  let modrmBytes ← bytesForModrm modrm bytes (cursor + 1)
  if modrm.reg = 2 ∨ modrm.reg = 3 then
    decodeGroup2RclRcr prefixes opcode bytes cursor modrm modrmBytes size
  else
    let op ← group2Op opcode modrm.reg
    let (shift, extraBytes) ← emitShiftCount opcode bytes (cursor + 1 + modrmBytes)
    let (dst, _) ← rmOperand modrm prefixes bytes (cursor + 1)
    let value ← dst.load size
    let result ← pushRef (.binOp op value shift size)
    dst.store result size
    return 1 + modrmBytes + extraBytes

end Group2

end Prisma.Decoder
