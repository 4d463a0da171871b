import Prisma.Passes.Basic

namespace Prisma.CopyProp

open Machine

-- The copies found so far, the latest first.
abbrev Aliases := List (Ref × Ref)

-- Follows the table until a ref that has no entry. Every ref is looked up at most once, so the number
-- of entries bounds the iterations.
def resolveAlias (r : Ref) (aliases : Aliases) : Ref :=
  go aliases.length r
where
  go : Nat → Ref → Ref
    | 0, cur => cur
    | fuel + 1, cur =>
      match aliases.lookup cur with
      | none => cur
      | some next => if next = cur then cur else go fuel next

-- Operations that are not listed keep their operands.
def rewrite (op : Op) (aliases : Aliases) : Op :=
  let r (ref : Ref) : Ref := resolveAlias ref aliases
  match op with
  | .storeReg reg value size => .storeReg reg (r value) size
  | .binOp op lhs rhs size => .binOp op (r lhs) (r rhs) size
  | .wideDiv high low divisor signed result =>
    .wideDiv (r high) (r low) (r divisor) signed result
  | .compare cc lhs rhs size => .compare cc (r lhs) (r rhs) size
  | .select cc trueValue falseValue size => .select cc (r trueValue) (r falseValue) size
  | .loadMem addr size => .loadMem (r addr) size
  | .storeMem addr value size => .storeMem (r addr) (r value) size
  | .loadMemTSO addr size => .loadMemTSO (r addr) size
  | .storeMemTSO addr value size => .storeMemTSO (r addr) (r value) size
  | .atomicCmpxchg addr expected newValue size =>
    .atomicCmpxchg (r addr) (r expected) (r newValue) size
  | .atomicCmpxchgPair addr expectedLow expectedHigh newLow newHigh oldHigh =>
    .atomicCmpxchgPair (r addr) (r expectedLow) (r expectedHigh) (r newLow) (r newHigh) oldHigh
  | .condJump cond ifTrue ifFalse => .condJump (r cond) ifTrue ifFalse
  | .cmpFlags lhs rhs size => .cmpFlags (r lhs) (r rhs) size
  | .aluFlags op lhs rhs size => .aluFlags op (r lhs) (r rhs) size
  | .aluFlagsPreserveCarry op lhs rhs size => .aluFlagsPreserveCarry op (r lhs) (r rhs) size
  | .callReg target returnGuestPc => .callReg (r target) returnGuestPc
  | .extend value fromSize toSize isSigned => .extend (r value) fromSize toSize isSigned
  | .truncate value toSize => .truncate (r value) toSize
  | .writeFlags op lhs rhs size => .writeFlags op (r lhs) (r rhs) size
  | .readFlag flags which => .readFlag (r flags) which
  | .condJumpFlags flags cc ifTrue ifFalse => .condJumpFlags (r flags) cc ifTrue ifFalse
  | .fpBinOp op lhs rhs size => .fpBinOp op (r lhs) (r rhs) size
  | .vecBinOp op lhs rhs lane => .vecBinOp op (r lhs) (r rhs) lane
  | .vecClMul lhs rhs lhsHigh rhsHigh => .vecClMul (r lhs) (r rhs) lhsHigh rhsHigh
  | .vecF16Cvt kind src rounding => .vecF16Cvt kind (r src) rounding
  | .vecFpScalarBinOp op lhs rhs size => .vecFpScalarBinOp op (r lhs) (r rhs) size
  | .xmmFromGpr value size => .xmmFromGpr (r value) size
  | .gprFromXmm value size => .gprFromXmm (r value) size
  | .vecCmp kind lhs rhs lane => .vecCmp kind (r lhs) (r rhs) lane
  | .pcmpStrIndex lhs rhs lhsLen rhsLen imm8 =>
    .pcmpStrIndex (r lhs) (r rhs) (lhsLen.map r) (rhsLen.map r) imm8
  | .pcmpStrMask lhs rhs lhsLen rhsLen imm8 =>
    .pcmpStrMask (r lhs) (r rhs) (lhsLen.map r) (rhsLen.map r) imm8
  | .pcmpStrFlags lhs rhs lhsLen rhsLen imm8 =>
    .pcmpStrFlags (r lhs) (r rhs) (lhsLen.map r) (rhsLen.map r) imm8
  | .vecShuffle32x4 src control => .vecShuffle32x4 (r src) control
  | .vecUnpack isHigh lhs rhs lane => .vecUnpack isHigh (r lhs) (r rhs) lane
  | .vecShiftImm kind src count lane => .vecShiftImm kind (r src) count lane
  | .vecShiftBytes isLeft src count => .vecShiftBytes isLeft (r src) count
  | .intToFpScalar value intSize fpSize => .intToFpScalar (r value) intSize fpSize
  | .fpToIntScalar value fpSize intSize => .fpToIntScalar (r value) fpSize intSize
  | .fpCvtScalar lhs src srcSize dstSize => .fpCvtScalar (r lhs) (r src) srcSize dstSize
  | .vecShuffle2Src isPd lhs rhs control => .vecShuffle2Src isPd (r lhs) (r rhs) control
  | .vecInsertLane lhsXmm value laneIdx lane => .vecInsertLane (r lhsXmm) (r value) laneIdx lane
  | .vecExtractLaneU srcXmm laneIdx lane => .vecExtractLaneU (r srcXmm) laneIdx lane
  | .vecMaskMsb srcXmm => .vecMaskMsb (r srcXmm)
  | .writeFlagsFp lhs rhs size => .writeFlagsFp (r lhs) (r rhs) size
  | .vecMaskFp srcXmm isPd => .vecMaskFp (r srcXmm) isPd
  | .vecFpCompare lhs rhs size pred isPacked => .vecFpCompare (r lhs) (r rhs) size pred isPacked
  | .vecPshufb src mask => .vecPshufb (r src) (r mask)
  | .vecAbs src lane => .vecAbs (r src) lane
  | .vecAlignr lhs rhs count => .vecAlignr (r lhs) (r rhs) count
  | .vecFpRound lhs src size mode isPacked => .vecFpRound (r lhs) (r src) size mode isPacked
  | .popcnt value size => .popcnt (r value) size
  | .lzcnt value size => .lzcnt (r value) size
  | .tzcnt value size => .tzcnt (r value) size
  | .writeFlagsPopcnt src size => .writeFlagsPopcnt (r src) size
  | .writeFlagsCountZero src result size => .writeFlagsCountZero (r src) (r result) size
  | .vecBlend dst src mask lane => .vecBlend (r dst) (r src) (r mask) lane
  | .writeFlagsPtest lhs rhs => .writeFlagsPtest (r lhs) (r rhs)
  | .writeFlagsPtestYmm loLhs loRhs hiLhs hiRhs =>
    .writeFlagsPtestYmm (r loLhs) (r loRhs) (r hiLhs) (r hiRhs)
  | .vecTbl2 srcLo srcHi idx => .vecTbl2 srcLo srcHi (r idx)
  | .vecAes src key kind => .vecAes (r src) (r key) kind
  | .vecAesKeygenAssist src rcon => .vecAesKeygenAssist (r src) rcon
  | .vecSha kind a b wk imm => .vecSha kind (r a) (r b) (r wk) imm
  | .bswap value size => .bswap (r value) size
  | .crc32c crc data dataSize => .crc32c (r crc) (r data) dataSize
  | .vecGather base index mask prev scaleShift elemIs64 indexIs64 laneCount destBase indexBase =>
    .vecGather (r base) (r index) (r mask) (r prev)
      scaleShift elemIs64 indexIs64 laneCount destBase indexBase
  | .vecFpFma a b c negAddend negMul size => .vecFpFma (r a) (r b) (r c) negAddend negMul size
  | .vecFpScalarFma a b c scalarUpper negAddend negMul size =>
    .vecFpScalarFma (r a) (r b) (r c) (r scalarUpper) negAddend negMul size
  | .x87Store stIndex value => .x87Store stIndex (r value)
  | .x87Push value => .x87Push (r value)
  | .storeRflags value => .storeRflags (r value)
  | .trapIf condition kind => .trapIf (r condition) kind
  | .storeRflagsFromNzcv carry pf af => .storeRflagsFromNzcv carry (pf.map r) (af.map r)
  | .storeRflagsFromBits pf af zf sf of =>
    .storeRflagsFromBits (pf.map r) (af.map r) (r zf) (r sf) (r of)
  | op => op

-- Whether the rewritten statement copies a ref: `Or x, x`, whatever its size.
def copySource (result : Option Ref) (op : Op) : Option (Ref × Ref) :=
  match result, op with
  | some result, .binOp .or lhs rhs _ =>
    if lhs = rhs ∧ lhs ≠ result then some (result, lhs) else none
  | _, _ => none

def copyStmt (aliases : Aliases) (stmt : Stmt) : Aliases × Stmt :=
  let op := rewrite stmt.op aliases
  ((copySource stmt.result op).toList ++ aliases, { stmt with op })

def copyPropagate (func : Function) : Function :=
  func.mapBlocks <| Machine.rewrite (fun aliases stmt => (copyStmt aliases stmt).map id some) []

end Prisma.CopyProp
