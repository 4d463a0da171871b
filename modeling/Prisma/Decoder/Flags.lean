import Prisma.Decoder.Basic

namespace Prisma.Decoder

section Operands

-- An r/m operand: a register, or memory at an address that has been emitted. The decoders of the
-- source branch on `mod == 3` and repeat their statements for both.
inductive RmOperand
  | reg (reg : Gpr)
  | mem (addr : Ref)
  deriving DecidableEq, Repr

-- The operand and the number of bytes of ModR/M, SIB and displacement at `cursor`.
def rmOperandAt (modrm : ModRm) (prefixes : PrefixSet) (bytes : List U8) (cursor : Nat)
    (ripAfter : U64) : Emit (RmOperand × Nat) := do
  if modrm.mod = 3 then
    return (.reg (mapReg modrm.rm prefixes.rex false), 1)
  else
    let (addr, used) ← emitAddrWithSizeAt modrm prefixes bytes cursor ripAfter
    return (.mem addr, used)

def rmOperand (modrm : ModRm) (prefixes : PrefixSet) (bytes : List U8) (cursor : Nat) :
    Emit (RmOperand × Nat) :=
  rmOperandAt modrm prefixes bytes cursor 0

namespace RmOperand

def load (operand : RmOperand) (size : OpSize) : Emit Ref :=
  match operand with
  | reg r => pushRef (.loadReg r size)
  | mem addr => pushRef (.loadMem addr size)

def store (operand : RmOperand) (value : Ref) (size : OpSize) : Emit Unit :=
  match operand with
  | reg r => pushStmt (.storeReg r value size)
  | mem addr => pushStmt (.storeMem addr value size)

end RmOperand

-- The value of an r/m operand that is only read.
def loadRm (modrm : ModRm) (prefixes : PrefixSet) (bytes : List U8) (cursor : Nat) (size : OpSize) :
    Emit (Ref × Nat) := do
  let (operand, used) ← rmOperand modrm prefixes bytes cursor
  let value ← operand.load size
  return (value, used)

end Operands

def pushConstantRef (value : U64) (size : OpSize) : Emit Ref :=
  pushRef (.constant value size)

def pushBinopRef (op : BinOpKind) (lhs rhs : Ref) (size : OpSize) : Emit Ref :=
  pushRef (.binOp op lhs rhs size)

def pushCompareRef (cc : CondCode) (lhs rhs : Ref) (size : OpSize) : Emit Ref :=
  pushRef (.compare cc lhs rhs size)

def pushLowBitRef (value : Ref) (size : OpSize) : Emit Ref := do
  let one ← pushConstantRef 1 size
  pushBinopRef .and value one size

def pushShiftedBitRef (value : Ref) (shift : U64) (size : OpSize) : Emit Ref := do
  let shift ← pushConstantRef shift size
  let shifted ← pushBinopRef .shr value shift size
  pushLowBitRef shifted size

-- One step of the parity fold: `value ^ (value >> shift)`.
def pushFoldRef (value : Ref) (shift : U64) (size : OpSize) : Emit Ref := do
  let shift ← pushConstantRef shift size
  let shifted ← pushBinopRef .shr value shift size
  pushBinopRef .xor value shifted size

def pushEvenParityLowByteRef (value : Ref) (size : OpSize) : Emit Ref := do
  let byteMask ← pushConstantRef 0xFF size
  let byte ← pushBinopRef .and value byteMask size
  let fold4 ← pushFoldRef byte 4 size
  let fold2 ← pushFoldRef fold4 2 size
  let fold1 ← pushFoldRef fold2 1 size
  let oddParity ← pushLowBitRef fold1 size
  let one ← pushConstantRef 1 size
  pushBinopRef .xor oddParity one size

def pushAuxFlagRef (lhs rhs result : Ref) (size : OpSize) : Emit Ref := do
  let lhsXorRhs ← pushBinopRef .xor lhs rhs size
  let carryNibble ← pushBinopRef .xor lhsXorRhs result size
  pushShiftedBitRef carryNibble 4 size

def pushPfAfForAlu (kind : BinOpKind) (lhs rhs result : Ref) (size : OpSize) :
    Emit (Option Ref × Option Ref) := do
  let pf ← pushEvenParityLowByteRef result size
  match kind with
  | .add | .sub =>
    let af ← pushAuxFlagRef lhs rhs result size
    return (some pf, some af)
  | _ => return (some pf, none)

def rflagsCarryModeForAlu : BinOpKind → Option RflagsCarryMode
  | .add => some .armCarry
  | .sub => some .invertArmCarry
  | .and | .or | .xor => some .clear
  | _ => none

def pushStoreRflagsFromNzcv (carry : RflagsCarryMode) (pf af : Option Ref) : Emit Unit :=
  pushStmt (.storeRflagsFromNzcv carry pf af)

def pushCmpFlags (lhs rhs : Ref) (size : OpSize) : Emit Ref := do
  let result ← pushBinopRef .sub lhs rhs size
  let flags ← pushRef (.cmpFlags lhs rhs size)
  let (pf, af) ← pushPfAfForAlu .sub lhs rhs result size
  pushStoreRflagsFromNzcv .invertArmCarry pf af
  return flags

-- The NZCV flags of an ALU operation and the subset of RFLAGS that is published from them.
def pushAluFlags (kind : BinOpKind) (lhs rhs : Ref) (size : OpSize) : Emit Unit := do
  match rflagsCarryModeForAlu kind with
  | some carry =>
    let result ← pushBinopRef kind lhs rhs size
    let (pf, af) ← pushPfAfForAlu kind lhs rhs result size
    pushStmt (.aluFlags kind lhs rhs size)
    pushStoreRflagsFromNzcv carry pf af
  | none => return ()

def emitAluFlagsPreserveCarry (op : BinOpKind) (lhs rhs : Ref) (size : OpSize) : Emit Unit := do
  let result ← pushBinopRef op lhs rhs size
  let (pf, af) ← pushPfAfForAlu op lhs rhs result size
  pushStmt (.aluFlagsPreserveCarry op lhs rhs size)
  pushStmt (.storeRflagsFromNzcv .preserve pf af)

section Bmi

def pushPreservedFlagRef (shift : U64) : Emit Ref := do
  let rflags ← pushRef .loadRflags
  pushShiftedBitRef rflags shift .i64

def pushResultFlagBits (result : Ref) (size : OpSize) (cf : Ref) (preserveSf : Bool) :
    Emit Unit := do
  let zero ← pushConstantRef 0 size
  let zf ← pushRef (.compare .eq result zero size)
  let sf ←
    if preserveSf then pushPreservedFlagRef 7
    else pushShiftedBitRef result (.ofNat 64 (size.bitWidth - 1)) size
  let of ← pushConstantRef 0 .i64
  pushStmt (.storeCarry cf)
  pushStmt (.storeRflagsFromBits none none zf sf of)

end Bmi

section AdcSbb

def pushOverflowWord (isSbb : Bool) (lhs rhs result : Ref) (size : OpSize) : Emit Ref := do
  if isSbb then
    let lhsXorRhs ← pushBinopRef .xor lhs rhs size
    let lhsXorResult ← pushBinopRef .xor lhs result size
    pushBinopRef .and lhsXorRhs lhsXorResult size
  else
    let lhsXorResult ← pushBinopRef .xor lhs result size
    let rhsXorResult ← pushBinopRef .xor rhs result size
    pushBinopRef .and lhsXorResult rhsXorResult size

def pushAdcSbbRflagsBits (isSbb : Bool) (lhs rhs result : Ref) (size : OpSize) : Emit Unit := do
  let zero ← pushConstantRef 0 size
  let zf ← pushRef (.compare .eq result zero size)
  let signShift := BitVec.ofNat 64 (size.bitWidth - 1)
  let pf ← pushEvenParityLowByteRef result size
  let af ← pushAuxFlagRef lhs rhs result size
  let sf ← pushShiftedBitRef result signShift size
  let overflowWord ← pushOverflowWord isSbb lhs rhs result size
  let of ← pushShiftedBitRef overflowWord signShift size
  pushStmt (.storeRflagsFromBits (some pf) (some af) zf sf of)

-- `lhs ± rhs ± CF` from two additions or subtractions. The new CF is the disjunction of their
-- carry-outs.
def emitAdcSbbValue (isSbb : Bool) (lhs rhs : Ref) (size : OpSize) : Emit Ref := do
  let op := if isSbb then .sub else .add
  let cf ← pushRef .loadCarry
  let t ← pushRef (.binOp op lhs rhs size)
  let wf1 ← pushRef (.writeFlags op lhs rhs size)
  let c1 ← pushRef (.readCarryOut wf1 isSbb)
  let res ← pushRef (.binOp op t cf size)
  let wf2 ← pushRef (.writeFlags op t cf size)
  let c2 ← pushRef (.readCarryOut wf2 isSbb)
  let newCf ← pushRef (.binOp .or c1 c2 size)
  pushStmt (.storeCarry newCf)
  return res

def emitAdcSbb (isSbb : Bool) (lhs rhs : Ref) (dstReg : Gpr) (size : OpSize) : Emit Unit := do
  let res ← emitAdcSbbValue isSbb lhs rhs size
  pushStmt (.storeReg dstReg res size)
  pushAdcSbbRflagsBits isSbb lhs rhs res size

end AdcSbb

section Traps

def emitSigfpeIf (condition : Ref) : Emit Unit :=
  pushStmt (.trapIf condition .sigfpe)

def emitDivisorZeroTrap (divisor : Ref) : Emit Unit := do
  let zero ← pushConstantRef 0 .i64
  let isZero ← pushCompareRef .eq divisor zero .i64
  emitSigfpeIf isZero

-- The shift `!0 << bits` of the source overflows for a signed 64-bit quotient, which no caller asks
-- for.
def emitDivQuotientOverflowTrap (quotient : Ref) (outSize : OpSize) (isSigned : Bool) :
    Emit Unit := do
  let bits := outSize.bitWidth
  if isSigned then
    let minRef ← pushConstantRef ((BitVec.allOnes 64 <<< bits) ||| (1#64 <<< (bits - 1))) .i64
    let maxRef ← pushConstantRef ((1#64 <<< (bits - 1)) - 1) .i64
    let belowMin ← pushCompareRef .slt quotient minRef .i64
    let aboveMax ← pushCompareRef .sgt quotient maxRef .i64
    let overflow ← pushBinopRef .or belowMin aboveMax .i8
    emitSigfpeIf overflow
  else
    let maxRef ←
      pushConstantRef (if bits = 64 then BitVec.allOnes 64 else (1#64 <<< bits) - 1) .i64
    let overflow ← pushCompareRef .ugt quotient maxRef .i64
    emitSigfpeIf overflow

end Traps

end Prisma.Decoder
