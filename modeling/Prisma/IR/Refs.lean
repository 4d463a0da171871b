import Prisma.IR.Basic

namespace Prisma

namespace Op

-- The SSA refs an operation reads, `collect_operand_refs` of the dead code pass. The second result
-- `oldHigh` of `atomicCmpxchgPair` is not among them.
def operandRefs : Op → List Ref
  | storeRflagsFromNzcv _ pf af => pf.toList ++ af.toList
  | storeRflagsFromBits pf af zf sf of => pf.toList ++ af.toList ++ [zf, sf, of]
  | readCarryOut flags _ => [flags]
  | storeCarry value => [value]
  | storeRflags value => [value]
  | trapIf condition _ => [condition]
  | storeReg _ value _ => [value]
  | binOp _ lhs rhs _ => [lhs, rhs]
  | wideDiv high low divisor _ _ => [high, low, divisor]
  | compare _ lhs rhs _ => [lhs, rhs]
  | select _ trueValue falseValue _ => [trueValue, falseValue]
  | loadMem addr _ => [addr]
  | storeMem addr value _ => [addr, value]
  | loadMemTSO addr _ => [addr]
  | storeMemTSO addr value _ => [addr, value]
  | atomicCmpxchg addr expected newValue _ => [addr, expected, newValue]
  | atomicCmpxchgPair addr expectedLow expectedHigh newLow newHigh _ =>
    [addr, expectedLow, expectedHigh, newLow, newHigh]
  | condJump cond _ _ => [cond]
  | cmpFlags lhs rhs _ => [lhs, rhs]
  | aluFlags _ lhs rhs _ => [lhs, rhs]
  | aluFlagsPreserveCarry _ lhs rhs _ => [lhs, rhs]
  | jumpReg target => [target]
  | callReg target _ => [target]
  | extend value _ _ _ => [value]
  | truncate value _ => [value]
  | fpBinOp _ lhs rhs _ => [lhs, rhs]
  | writeFlags _ lhs rhs _ => [lhs, rhs]
  | readFlag flags _ => [flags]
  | condJumpFlags flags _ _ _ => [flags]
  | vecBinOp _ lhs rhs _ => [lhs, rhs]
  | vecClMul lhs rhs _ _ => [lhs, rhs]
  | vecF16Cvt _ src _ => [src]
  | storeVecReg _ value => [value]
  | loadVec addr => [addr]
  | storeVec addr value => [addr, value]
  | vecFpBinOp _ lhs rhs _ => [lhs, rhs]
  | vecFpScalarBinOp _ lhs rhs _ => [lhs, rhs]
  | xmmFromGpr value _ => [value]
  | gprFromXmm value _ => [value]
  | vecCmp _ lhs rhs _ => [lhs, rhs]
  | pcmpStrIndex lhs rhs lhsLen rhsLen _ => [lhs, rhs] ++ lhsLen.toList ++ rhsLen.toList
  | pcmpStrMask lhs rhs lhsLen rhsLen _ => [lhs, rhs] ++ lhsLen.toList ++ rhsLen.toList
  | pcmpStrFlags lhs rhs lhsLen rhsLen _ => [lhs, rhs] ++ lhsLen.toList ++ rhsLen.toList
  | vecShuffle32x4 src _ => [src]
  | vecUnpack _ lhs rhs _ => [lhs, rhs]
  | vecShiftImm _ src _ _ => [src]
  | vecShiftBytes _ src _ => [src]
  | intToFpScalar value _ _ => [value]
  | fpToIntScalar value _ _ => [value]
  | fpCvtScalar lhs src _ _ => [lhs, src]
  | vecShuffle2Src _ lhs rhs _ => [lhs, rhs]
  | vecInsertLane lhsXmm value _ _ => [lhsXmm, value]
  | vecExtractLaneU srcXmm _ _ => [srcXmm]
  | vecMaskMsb srcXmm => [srcXmm]
  | writeFlagsFp lhs rhs _ => [lhs, rhs]
  | vecShuffleH4 _ src _ => [src]
  | vecMaskFp srcXmm _ => [srcXmm]
  | vecFpCompare lhs rhs _ _ _ => [lhs, rhs]
  | vecPshufb src mask => [src, mask]
  | vecAbs src _ => [src]
  | vecAlignr lhs rhs _ => [lhs, rhs]
  | vecExtend src _ _ _ => [src]
  | vecFpRound lhs src _ _ _ => [lhs, src]
  | popcnt value _ => [value]
  | lzcnt value _ => [value]
  | tzcnt value _ => [value]
  | writeFlagsPopcnt src _ => [src]
  | writeFlagsCountZero src result _ => [src, result]
  | vecBlend dst src mask _ => [dst, src, mask]
  | writeFlagsPtest lhs rhs => [lhs, rhs]
  | writeFlagsPtestYmm loLhs loRhs hiLhs hiRhs => [loLhs, loRhs, hiLhs, hiRhs]
  | vecTbl2 srcLo srcHi idx => [srcLo, srcHi, idx]
  | vecAes src key _ => [src, key]
  | vecAesKeygenAssist src _ => [src]
  | vecSha _ a b wk _ => [a, b, wk]
  | bswap value _ => [value]
  | crc32c crc data _ => [crc, data]
  | vecGather base index mask prev _ _ _ _ _ _ => [base, index, mask, prev]
  | storeVecRegHi _ value => [value]
  | vecFpFma a b c _ _ _ => [a, b, c]
  | vecFpScalarFma a b c scalarUpper _ _ _ => [a, b, c, scalarUpper]
  | x87Store _ value => [value]
  | x87Push value => [value]
  | _ => []

-- The result an operation defines besides the statement's own one.
def secondResult : Op → Option Ref
  | atomicCmpxchgPair _ _ _ _ _ oldHigh => some oldHigh
  | _ => none

-- Applies `f` to every SSA ref of the operation, the second result included.
def mapRefs (f : Ref → Ref) : Op → Op
  | storeReg reg value size => storeReg reg (f value) size
  | binOp op lhs rhs size => binOp op (f lhs) (f rhs) size
  | wideDiv high low divisor signed result =>
    wideDiv (f high) (f low) (f divisor) signed result
  | compare cc lhs rhs size => compare cc (f lhs) (f rhs) size
  | select cc trueValue falseValue size => select cc (f trueValue) (f falseValue) size
  | loadMem addr size => loadMem (f addr) size
  | storeMem addr value size => storeMem (f addr) (f value) size
  | loadMemTSO addr size => loadMemTSO (f addr) size
  | storeMemTSO addr value size => storeMemTSO (f addr) (f value) size
  | atomicCmpxchg addr expected newValue size =>
    atomicCmpxchg (f addr) (f expected) (f newValue) size
  | atomicCmpxchgPair addr expectedLow expectedHigh newLow newHigh oldHigh =>
    atomicCmpxchgPair (f addr) (f expectedLow) (f expectedHigh) (f newLow) (f newHigh) (f oldHigh)
  | condJump cond ifTrue ifFalse => condJump (f cond) ifTrue ifFalse
  | cmpFlags lhs rhs size => cmpFlags (f lhs) (f rhs) size
  | aluFlags op lhs rhs size => aluFlags op (f lhs) (f rhs) size
  | aluFlagsPreserveCarry op lhs rhs size => aluFlagsPreserveCarry op (f lhs) (f rhs) size
  | jumpReg target => jumpReg (f target)
  | callReg target returnGuestPc => callReg (f target) returnGuestPc
  | extend value fromSize toSize isSigned => extend (f value) fromSize toSize isSigned
  | truncate value toSize => truncate (f value) toSize
  | writeFlags op lhs rhs size => writeFlags op (f lhs) (f rhs) size
  | readFlag flags which => readFlag (f flags) which
  | condJumpFlags flags cc ifTrue ifFalse => condJumpFlags (f flags) cc ifTrue ifFalse
  | fpBinOp op lhs rhs size => fpBinOp op (f lhs) (f rhs) size
  | vecBinOp op lhs rhs lane => vecBinOp op (f lhs) (f rhs) lane
  | vecClMul lhs rhs lhsHigh rhsHigh => vecClMul (f lhs) (f rhs) lhsHigh rhsHigh
  | vecF16Cvt kind src rounding => vecF16Cvt kind (f src) rounding
  | storeVecReg xmmIndex value => storeVecReg xmmIndex (f value)
  | loadVec addr => loadVec (f addr)
  | storeVec addr value => storeVec (f addr) (f value)
  | vecFpBinOp op lhs rhs size => vecFpBinOp op (f lhs) (f rhs) size
  | vecFpScalarBinOp op lhs rhs size => vecFpScalarBinOp op (f lhs) (f rhs) size
  | xmmFromGpr value size => xmmFromGpr (f value) size
  | gprFromXmm value size => gprFromXmm (f value) size
  | vecCmp kind lhs rhs lane => vecCmp kind (f lhs) (f rhs) lane
  | pcmpStrIndex lhs rhs lhsLen rhsLen imm8 =>
    pcmpStrIndex (f lhs) (f rhs) (lhsLen.map f) (rhsLen.map f) imm8
  | pcmpStrMask lhs rhs lhsLen rhsLen imm8 =>
    pcmpStrMask (f lhs) (f rhs) (lhsLen.map f) (rhsLen.map f) imm8
  | pcmpStrFlags lhs rhs lhsLen rhsLen imm8 =>
    pcmpStrFlags (f lhs) (f rhs) (lhsLen.map f) (rhsLen.map f) imm8
  | vecShuffle32x4 src control => vecShuffle32x4 (f src) control
  | vecUnpack isHigh lhs rhs lane => vecUnpack isHigh (f lhs) (f rhs) lane
  | vecShiftImm kind src count lane => vecShiftImm kind (f src) count lane
  | vecShiftBytes isLeft src count => vecShiftBytes isLeft (f src) count
  | intToFpScalar value intSize fpSize => intToFpScalar (f value) intSize fpSize
  | fpToIntScalar value fpSize intSize => fpToIntScalar (f value) fpSize intSize
  | fpCvtScalar lhs src srcSize dstSize => fpCvtScalar (f lhs) (f src) srcSize dstSize
  | vecShuffle2Src isPd lhs rhs control => vecShuffle2Src isPd (f lhs) (f rhs) control
  | vecInsertLane lhsXmm value laneIdx lane => vecInsertLane (f lhsXmm) (f value) laneIdx lane
  | vecExtractLaneU srcXmm laneIdx lane => vecExtractLaneU (f srcXmm) laneIdx lane
  | vecMaskMsb srcXmm => vecMaskMsb (f srcXmm)
  | writeFlagsFp lhs rhs size => writeFlagsFp (f lhs) (f rhs) size
  | vecShuffleH4 isHigh src control => vecShuffleH4 isHigh (f src) control
  | vecMaskFp srcXmm isPd => vecMaskFp (f srcXmm) isPd
  | vecFpCompare lhs rhs size pred isPacked => vecFpCompare (f lhs) (f rhs) size pred isPacked
  | vecPshufb src mask => vecPshufb (f src) (f mask)
  | vecAbs src lane => vecAbs (f src) lane
  | vecAlignr lhs rhs count => vecAlignr (f lhs) (f rhs) count
  | vecExtend src narrowLane wideLane isSigned => vecExtend (f src) narrowLane wideLane isSigned
  | vecFpRound lhs src size mode isPacked => vecFpRound (f lhs) (f src) size mode isPacked
  | popcnt value size => popcnt (f value) size
  | lzcnt value size => lzcnt (f value) size
  | tzcnt value size => tzcnt (f value) size
  | writeFlagsPopcnt src size => writeFlagsPopcnt (f src) size
  | writeFlagsCountZero src result size => writeFlagsCountZero (f src) (f result) size
  | vecBlend dst src mask lane => vecBlend (f dst) (f src) (f mask) lane
  | writeFlagsPtest lhs rhs => writeFlagsPtest (f lhs) (f rhs)
  | writeFlagsPtestYmm loLhs loRhs hiLhs hiRhs =>
    writeFlagsPtestYmm (f loLhs) (f loRhs) (f hiLhs) (f hiRhs)
  | vecTbl2 srcLo srcHi idx => vecTbl2 (f srcLo) (f srcHi) (f idx)
  | vecAes src key kind => vecAes (f src) (f key) kind
  | vecAesKeygenAssist src rcon => vecAesKeygenAssist (f src) rcon
  | vecSha kind a b wk imm => vecSha kind (f a) (f b) (f wk) imm
  | bswap value size => bswap (f value) size
  | crc32c crc data dataSize => crc32c (f crc) (f data) dataSize
  | vecGather base index mask prev scaleShift elemIs64 indexIs64 laneCount destBase indexBase =>
    vecGather (f base) (f index) (f mask) (f prev)
      scaleShift elemIs64 indexIs64 laneCount destBase indexBase
  | storeVecRegHi ymmIndex value => storeVecRegHi ymmIndex (f value)
  | vecFpFma a b c negAddend negMul size => vecFpFma (f a) (f b) (f c) negAddend negMul size
  | vecFpScalarFma a b c scalarUpper negAddend negMul size =>
    vecFpScalarFma (f a) (f b) (f c) (f scalarUpper) negAddend negMul size
  | x87Store stIndex value => x87Store stIndex (f value)
  | x87Push value => x87Push (f value)
  | readCarryOut flags fromSub => readCarryOut (f flags) fromSub
  | storeCarry value => storeCarry (f value)
  | storeRflags value => storeRflags (f value)
  | trapIf condition kind => trapIf (f condition) kind
  | storeRflagsFromNzcv carry pf af => storeRflagsFromNzcv carry (pf.map f) (af.map f)
  | storeRflagsFromBits pf af zf sf of =>
    storeRflagsFromBits (pf.map f) (af.map f) (f zf) (f sf) (f of)
  | op => op

@[simp]
theorem mapRefs_id (op : Op) : op.mapRefs id = op := by
  cases op <;> first | rfl | simp [mapRefs]

end Op

namespace Stmt

def mapRefs (f : Ref → Ref) (stmt : Stmt) : Stmt where
  result := stmt.result.map f
  op := stmt.op.mapRefs f

-- Every ref a statement defines.
def defs (stmt : Stmt) : List Ref :=
  stmt.result.toList ++ stmt.op.secondResult.toList

theorem mem_defs_of_result {stmt : Stmt} (h : stmt.result = some d) : d ∈ stmt.defs := by
  simp [defs, h]

end Stmt

-- `SsaFrom defined stmts` states that `stmts` is in SSA form when it runs after statements that
-- define the refs in `defined`: no ref is defined twice, and every operand is defined earlier.
def SsaFrom (defined : List Ref) : List Stmt → Prop
  | [] => True
  | stmt :: stmts =>
    (∀ r ∈ stmt.op.operandRefs, r ∈ defined) ∧
    (stmt.defs.Nodup ∧ ∀ d ∈ stmt.defs, d ∉ defined) ∧
    SsaFrom (stmt.defs ++ defined) stmts

abbrev Ssa (stmts : List Stmt) : Prop :=
  SsaFrom [] stmts

instance SsaFrom.decidable : (defined : List Ref) → (stmts : List Stmt) →
    Decidable (SsaFrom defined stmts)
  | _, [] => isTrue trivial
  | defined, stmt :: stmts =>
    have := SsaFrom.decidable (stmt.defs ++ defined) stmts
    inferInstanceAs (Decidable (_ ∧ _ ∧ _))

namespace SsaFrom

variable {defined : List Ref} {stmt : Stmt} {stmts : List Stmt}

theorem operands_mem (h : SsaFrom defined (stmt :: stmts)) (hr : r ∈ stmt.op.operandRefs) :
    r ∈ defined :=
  h.left r hr

theorem defs_not_mem (h : SsaFrom defined (stmt :: stmts)) (hd : d ∈ stmt.defs) : d ∉ defined :=
  h.right.left.right d hd

theorem tail (h : SsaFrom defined (stmt :: stmts)) : SsaFrom (stmt.defs ++ defined) stmts :=
  h.right.right

-- What is defined already is not defined again.
theorem not_mem_defs (h : SsaFrom defined stmts) (hr : r ∈ defined) :
    r ∉ stmts.flatMap Stmt.defs := by
  induction stmts generalizing defined with
  | nil => exact List.not_mem_nil
  | cons stmt stmts hi =>
    rw [List.flatMap_cons, List.mem_append]
    rintro (hd | hd)
    · exact h.defs_not_mem hd hr
    · exact hi h.tail (List.mem_append_right _ hr) hd

end SsaFrom

end Prisma
