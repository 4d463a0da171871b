import Mathlib.Data.BitVec

namespace Prisma

abbrev U8 := BitVec 8
abbrev U16 := BitVec 16
abbrev U32 := BitVec 32
abbrev U64 := BitVec 64
abbrev U128 := BitVec 128

-- Membership in a list of words is decided through these.
instance lawfulBEq3 : LawfulBEq (BitVec 3) := inferInstance

instance : LawfulBEq U8 := inferInstance

instance : LawfulBEq U64 := inferInstance

-- x86-64 general-purpose registers in architectural order.
inductive Gpr
  | rax | rcx | rdx | rbx | rsp | rbp | rsi | rdi
  | r8 | r9 | r10 | r11 | r12 | r13 | r14 | r15
  deriving DecidableEq, Repr

inductive OpSize
  | i8 | i16 | i32 | i64
  deriving DecidableEq, Repr

namespace OpSize

def bitWidth : OpSize → Nat
  | i8 => 8
  | i16 => 16
  | i32 => 32
  | i64 => 64

def mask : OpSize → U64
  | i8 => 0xFF
  | i16 => 0xFFFF
  | i32 => 0xFFFF_FFFF
  | i64 => BitVec.allOnes 64

end OpSize

inductive BinOpKind
  | add | sub | mul | and | or | xor | shl | shr | sar | rol | ror | rcl | rcr
  | uMulHi | sMulHi | uDiv | sDiv | uMod | sMod | pdep | pext
  deriving DecidableEq, Repr

-- Which half of a full-width division a statement materializes.
inductive WideDivResult
  | quotient | remainder
  deriving DecidableEq, Repr

inductive CondCode
  | eq | ne | ult | ule | ugt | uge | slt | sle | sgt | sge
  | cc | nc | ov | noOv | mi | pl
  deriving DecidableEq, Repr

inductive SegmentReg
  | es | cs | ss | ds | fs | gs
  deriving DecidableEq, Repr

inductive FlagBit
  | carry | zero | sign | overflow | parity | aux
  deriving DecidableEq, Repr

-- How `storeRflagsFromNzcv` derives the x86 CF bit from the ARM64 C flag. Subtract-like flag
-- writers leave C = "no borrow", the inverse of x86 CF.
inductive RflagsCarryMode
  | armCarry | invertArmCarry | clear | preserve
  deriving DecidableEq, Repr

inductive FenceKind
  | mfence | lfence | sfence
  deriving DecidableEq, Repr

inductive TrapKind
  | sigtrap | sigill | sigfpe
  deriving DecidableEq, Repr

inductive VecLane
  | b16 | h8 | s4 | d2
  deriving DecidableEq, Repr

inductive VecBinOpKind
  | add | sub | and | or | xor | mul | sqAdd | uqAdd | sqSub | uqSub | uMin | uMax | sMin | sMax
  | sMulHi | uMulHi | uMul32To64 | sadBw | pairAddInt | pairSubInt
  deriving DecidableEq, Repr

inductive VecFpCmpPred
  | eq | lt | le | unord | neq | nlt | nle | ord
  deriving DecidableEq, Repr

inductive VecShiftKind
  | shiftL | logicalShr | arithShr
  deriving DecidableEq, Repr

inductive VecFpBinOpKind
  | add | sub | mul | div | min | max | sqrt | hAdd
  deriving DecidableEq, Repr

inductive VecFpSize
  | s4 | d2
  deriving DecidableEq, Repr

inductive VecF16CvtKind
  | phToPs | psToPh
  deriving DecidableEq, Repr

inductive FpSize
  | f32 | f64
  deriving DecidableEq, Repr

inductive FpBinOpKind
  | add | sub | mul | div
  deriving DecidableEq, Repr

inductive VecAesKind
  | enc | encLast | dec | decLast | imc
  deriving DecidableEq, Repr

inductive VecShaKind
  | sha1Rnds4 | sha1Nexte | sha1Msg1 | sha1Msg2 | sha256Rnds2 | sha256Msg1 | sha256Msg2
  deriving DecidableEq, Repr

inductive VecCmpKind
  | eq | gt
  deriving DecidableEq, Repr

-- SSA value identifier. The source's `u32` is a natural number here, the places that could leave
-- the range of a `u32` check it explicitly.
abbrev Ref := Nat

-- The IR operations. Fields of type `Ref` are SSA operands, except for `oldHigh` of
-- `atomicCmpxchgPair`, which is a second result of the statement.
inductive Op
  | constant (value : U64) (size : OpSize)
  | loadReg (reg : Gpr) (size : OpSize)
  | storeReg (reg : Gpr) (value : Ref) (size : OpSize)
  | loadSegBase (seg : SegmentReg)
  | binOp (op : BinOpKind) (lhs rhs : Ref) (size : OpSize)
  | wideDiv (high low divisor : Ref) (signed : Bool) (result : WideDivResult)
  | compare (cc : CondCode) (lhs rhs : Ref) (size : OpSize)
  | select (cc : CondCode) (trueValue falseValue : Ref) (size : OpSize)
  | loadMem (addr : Ref) (size : OpSize)
  | storeMem (addr value : Ref) (size : OpSize)
  | loadMemTSO (addr : Ref) (size : OpSize)
  | storeMemTSO (addr value : Ref) (size : OpSize)
  | atomicCmpxchg (addr expected newValue : Ref) (size : OpSize)
  | atomicCmpxchgPair (addr expectedLow expectedHigh newLow newHigh oldHigh : Ref)
  | jump (targetBlock : Nat)
  | condJump (cond : Ref) (ifTrue ifFalse : Nat)
  | ret
  | cmpFlags (lhs rhs : Ref) (size : OpSize)
  | aluFlags (op : BinOpKind) (lhs rhs : Ref) (size : OpSize)
  | aluFlagsPreserveCarry (op : BinOpKind) (lhs rhs : Ref) (size : OpSize)
  | jumpReg (target : Ref)
  | jumpRel (targetGuestPc : U64)
  | condJumpRel (cc : CondCode) (targetGuestPc fallthroughGuestPc : U64)
  | callRel (targetGuestPc returnGuestPc : U64)
  | callReg (target : Ref) (returnGuestPc : U64)
  | retAdjusted (popBytes : U64)
  | cpuid
  | xgetbv
  | rdtsc
  | syscall
  | trap (kind : TrapKind)
  | trapIf (condition : Ref) (kind : TrapKind)
  | extend (value : Ref) (fromSize toSize : OpSize) (isSigned : Bool)
  | truncate (value : Ref) (toSize : OpSize)
  | fence (kind : FenceKind)
  | guestPc (pc : U64)
  | inlineAsm (bytes : List U8)
  | fpConstant (bits : U64) (size : FpSize)
  | fpBinOp (op : FpBinOpKind) (lhs rhs : Ref) (size : FpSize)
  | writeFlags (op : BinOpKind) (lhs rhs : Ref) (size : OpSize)
  | readFlag (flags : Ref) (which : FlagBit)
  | condJumpFlags (flags : Ref) (cc : CondCode) (ifTrue ifFalse : Nat)
  | rspAdjust (deltaBytes : U64)
  | vecConstant (lo hi : U64)
  | vecBinOp (op : VecBinOpKind) (lhs rhs : Ref) (lane : VecLane)
  | vecClMul (lhs rhs : Ref) (lhsHigh rhsHigh : Bool)
  | vecF16Cvt (kind : VecF16CvtKind) (src : Ref) (rounding : U8)
  | loadVecReg (xmmIndex : U8)
  | storeVecReg (xmmIndex : U8) (value : Ref)
  | loadVec (addr : Ref)
  | storeVec (addr value : Ref)
  | vecFpBinOp (op : VecFpBinOpKind) (lhs rhs : Ref) (size : VecFpSize)
  | vecFpScalarBinOp (op : VecFpBinOpKind) (lhs rhs : Ref) (size : FpSize)
  | xmmFromGpr (value : Ref) (size : OpSize)
  | gprFromXmm (value : Ref) (size : OpSize)
  | vecCmp (kind : VecCmpKind) (lhs rhs : Ref) (lane : VecLane)
  | pcmpStrIndex (lhs rhs : Ref) (lhsLen rhsLen : Option Ref) (imm8 : U8)
  | pcmpStrMask (lhs rhs : Ref) (lhsLen rhsLen : Option Ref) (imm8 : U8)
  | pcmpStrFlags (lhs rhs : Ref) (lhsLen rhsLen : Option Ref) (imm8 : U8)
  | vecShuffle32x4 (src : Ref) (control : U8)
  | vecUnpack (isHigh : Bool) (lhs rhs : Ref) (lane : VecLane)
  | vecShiftImm (kind : VecShiftKind) (src : Ref) (count : U8) (lane : VecLane)
  | vecShiftBytes (isLeft : Bool) (src : Ref) (count : U8)
  | intToFpScalar (value : Ref) (intSize : OpSize) (fpSize : FpSize)
  | fpToIntScalar (value : Ref) (fpSize : FpSize) (intSize : OpSize)
  | fpCvtScalar (lhs src : Ref) (srcSize dstSize : FpSize)
  | vecShuffle2Src (isPd : Bool) (lhs rhs : Ref) (control : U8)
  | vecInsertLane (lhsXmm value : Ref) (laneIdx : U8) (lane : VecLane)
  | vecExtractLaneU (srcXmm : Ref) (laneIdx : U8) (lane : VecLane)
  | vecMaskMsb (srcXmm : Ref)
  | writeFlagsFp (lhs rhs : Ref) (size : FpSize)
  | vecShuffleH4 (isHigh : Bool) (src : Ref) (control : U8)
  | vecMaskFp (srcXmm : Ref) (isPd : Bool)
  | vecFpCompare (lhs rhs : Ref) (size : FpSize) (pred : VecFpCmpPred) (isPacked : Bool)
  | vecPshufb (src mask : Ref)
  | vecAbs (src : Ref) (lane : VecLane)
  | vecAlignr (lhs rhs : Ref) (count : U8)
  | vecExtend (src : Ref) (narrowLane wideLane : VecLane) (isSigned : Bool)
  | vecFpRound (lhs src : Ref) (size : FpSize) (mode : U8) (isPacked : Bool)
  | popcnt (value : Ref) (size : OpSize)
  | lzcnt (value : Ref) (size : OpSize)
  | tzcnt (value : Ref) (size : OpSize)
  | writeFlagsPopcnt (src : Ref) (size : OpSize)
  | writeFlagsCountZero (src result : Ref) (size : OpSize)
  | vecBlend (dst src mask : Ref) (lane : VecLane)
  | writeFlagsPtest (lhs rhs : Ref)
  | writeFlagsPtestYmm (loLhs loRhs hiLhs hiRhs : Ref)
  | vecTbl2 (srcLo srcHi idx : Ref)
  | vecAes (src key : Ref) (kind : VecAesKind)
  | vecAesKeygenAssist (src : Ref) (rcon : U8)
  | vecSha (kind : VecShaKind) (a b wk : Ref) (imm : U8)
  | bswap (value : Ref) (size : OpSize)
  | crc32c (crc data : Ref) (dataSize : OpSize)
  | vecGather (base index mask prev : Ref)
      (scaleShift elemIs64 indexIs64 laneCount destLaneBase indexLaneBase : U8)
  | loadVecRegHi (ymmIndex : U8)
  | storeVecRegHi (ymmIndex : U8) (value : Ref)
  | vecFpFma (a b c : Ref) (negAddend negMul : Bool) (size : VecFpSize)
  | vecFpScalarFma (a b c scalarUpper : Ref) (negAddend negMul : Bool) (size : FpSize)
  | repStos (size : OpSize) (reverse : Bool) (pcOfRep pcAfterRep : U64)
  | repMovs (size : OpSize) (reverse : Bool) (pcOfRep pcAfterRep : U64)
  | x87Load (stIndex : U8)
  | x87Store (stIndex : U8) (value : Ref)
  | x87Push (value : Ref)
  | x87Pop
  | loadCarry
  | readCarryOut (flags : Ref) (fromSub : Bool)
  | storeCarry (value : Ref)
  | loadRflags
  | storeRflags (value : Ref)
  | storeRflagsFromNzcv (carry : RflagsCarryMode) (pf af : Option Ref)
  | storeRflagsFromBits (pf af : Option Ref) (zf sf of : Ref)

-- A single IR statement. `result` is `none` for side-effect-only operations.
structure Stmt where
  result : Option Ref
  op : Op

structure BasicBlock where
  id : Nat
  stmts : List Stmt

structure Function where
  blocks : List BasicBlock
  entry : Nat

end Prisma
