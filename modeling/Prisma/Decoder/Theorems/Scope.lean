import Prisma.Decoder.Dispatch

-- What each function of the decoder needs and hands out in terms of refs: the refs that have to be
-- defined when it is called, and the refs that its result holds, which are defined afterwards.

namespace Prisma.Decoder

open Emission

instance : Statement Stmt where
  uses stmt := stmt.op.operandRefs
  defs := Stmt.defs

instance :
    EmitsSpec (pushRef op) (fun Γ => op.secondResult = none ∧ ∀ r ∈ op.operandRefs, r ∈ Γ)
      fun r => [r] where
  emits h := emits_fresh_push (fun _ => h.right) fun _ => by
    simp [Statement.defs, Stmt.defs, h.left]

instance :
    EmitsSpec (pushStmt op) (fun Γ => op.secondResult = none ∧ ∀ r ∈ op.operandRefs, r ∈ Γ)
      fun _ => [] where
  emits h := emits_push h.right (by simp [Statement.defs, Stmt.defs, h.left])

namespace RmOperand

def refs : RmOperand → List Ref
  | .reg _ => []
  | .mem addr => [addr]

@[simp]
theorem refs_reg (r : Gpr) : (reg r).refs = [] := rfl

@[simp]
theorem refs_mem (addr : Ref) : (mem addr).refs = [addr] := rfl

end RmOperand

def RotateRefs.refs (refs : RotateRefs) : List Ref :=
  [refs.cf, refs.dst, refs.zero, refs.one, refs.count, refs.countMinusOne, refs.widthMinusCount,
    refs.rotateWidthMinusCount]

attribute [local simp] RotateRefs.refs

-- What needs defined refs and hands out one ref, or none.
abbrev Provides (m : Emit Ref) (Q : List Ref → Prop) : Prop := EmitsSpec m Q fun r => [r]
abbrev Needs {α : Type} (m : Emit α) (Q : List Ref → Prop) : Prop := EmitsSpec m Q fun _ => []

attribute [local simp] Op.operandRefs Op.secondResult

section Address

instance : Provides (emitLoadAddrReg reg) fun _ => True :=
  .derive (emitLoadAddrReg.eq_def ..)

instance : Provides (emitAddrConst value) fun _ => True :=
  .derive (emitAddrConst.eq_def ..)

instance : Provides (emitAddrBinop op lhs rhs) fun Γ => lhs ∈ Γ ∧ rhs ∈ Γ :=
  .derive (emitAddrBinop.eq_def ..)

instance : Provides (emitAddDisp baseRef disp) fun Γ => baseRef ∈ Γ := .derive

instance : Provides (emitScaledIndex index scale) fun _ => True := .derive

instance : Provides (emitBasePlusIndex base scaledIndex) fun Γ => scaledIndex ∈ Γ :=
  .derive (emitBasePlusIndex.eq_def ..)

instance : Provides (emitAddrModeAt addr ripAfter) fun _ => True :=
  .derive (emitAddrModeAt.eq_def ..)

instance :
    EmitsSpec (emitAddrWithSizeAt modrm prefixes bytes cursor ripAfter) (fun _ => True)
      fun p => [p.1] := .derive

instance :
    EmitsSpec (emitAddrWithSize modrm prefixes bytes cursor) (fun _ => True) fun p => [p.1] :=
  .derive

end Address

section Flags

instance :
    EmitsSpec (rmOperandAt modrm prefixes bytes cursor ripAfter) (fun _ => True)
      fun p => p.1.refs := .derive

instance : EmitsSpec (rmOperand modrm prefixes bytes cursor) (fun _ => True) fun p => p.1.refs :=
  .derive

instance : Provides (RmOperand.load operand size) fun Γ => ∀ r ∈ operand.refs, r ∈ Γ :=
  .derive (RmOperand.load.eq_def ..)

instance :
    Needs (RmOperand.store operand value size) fun Γ => (∀ r ∈ operand.refs, r ∈ Γ) ∧ value ∈ Γ :=
  .derive (RmOperand.store.eq_def ..)

instance : EmitsSpec (loadRm modrm prefixes bytes cursor size) (fun _ => True) fun p => [p.1] :=
  .derive

instance : Provides (pushConstantRef value size) fun _ => True :=
  .derive (pushConstantRef.eq_def ..)

instance : Provides (pushBinopRef op lhs rhs size) fun Γ => lhs ∈ Γ ∧ rhs ∈ Γ :=
  .derive (pushBinopRef.eq_def ..)

instance : Provides (pushCompareRef cc lhs rhs size) fun Γ => lhs ∈ Γ ∧ rhs ∈ Γ :=
  .derive (pushCompareRef.eq_def ..)

instance : Provides (pushLowBitRef value size) fun Γ => value ∈ Γ := .derive

instance : Provides (pushShiftedBitRef value shift size) fun Γ => value ∈ Γ := .derive

instance : Provides (pushFoldRef value shift size) fun Γ => value ∈ Γ := .derive

instance : Provides (pushEvenParityLowByteRef value size) fun Γ => value ∈ Γ := .derive

instance : Provides (pushAuxFlagRef lhs rhs result size) fun Γ => lhs ∈ Γ ∧ rhs ∈ Γ ∧ result ∈ Γ :=
  .derive

instance :
    EmitsSpec (pushPfAfForAlu kind lhs rhs result size) (fun Γ => lhs ∈ Γ ∧ rhs ∈ Γ ∧ result ∈ Γ)
      fun p => p.1.toList ++ p.2.toList := .derive

instance :
    Needs (pushStoreRflagsFromNzcv carry pf af) fun Γ => (∀ r ∈ pf, r ∈ Γ) ∧ (∀ r ∈ af, r ∈ Γ) :=
  .derive (pushStoreRflagsFromNzcv.eq_def ..)

instance : Provides (pushCmpFlags lhs rhs size) fun Γ => lhs ∈ Γ ∧ rhs ∈ Γ := .derive

instance : Needs (pushAluFlags kind lhs rhs size) fun Γ => lhs ∈ Γ ∧ rhs ∈ Γ :=
  .derive (pushAluFlags.eq_def ..)

instance : Needs (emitAluFlagsPreserveCarry op lhs rhs size) fun Γ => lhs ∈ Γ ∧ rhs ∈ Γ := .derive

instance : Provides (pushPreservedFlagRef shift) fun _ => True := .derive

instance : Needs (pushResultFlagBits result size cf preserveSf) fun Γ => result ∈ Γ ∧ cf ∈ Γ :=
  .derive

instance :
    Provides (pushOverflowWord isSbb lhs rhs result size) fun Γ => lhs ∈ Γ ∧ rhs ∈ Γ ∧ result ∈ Γ :=
  .derive

instance :
    Needs (pushAdcSbbRflagsBits isSbb lhs rhs result size) fun Γ =>
      lhs ∈ Γ ∧ rhs ∈ Γ ∧ result ∈ Γ := .derive

instance : Provides (emitAdcSbbValue isSbb lhs rhs size) fun Γ => lhs ∈ Γ ∧ rhs ∈ Γ := .derive

instance : Needs (emitAdcSbb isSbb lhs rhs dstReg size) fun Γ => lhs ∈ Γ ∧ rhs ∈ Γ := .derive

instance : Needs (emitSigfpeIf condition) fun Γ => condition ∈ Γ :=
  .derive (emitSigfpeIf.eq_def ..)

instance : Needs (emitDivisorZeroTrap divisor) fun Γ => divisor ∈ Γ := .derive

instance : Needs (emitDivQuotientOverflowTrap quotient outSize isSigned) fun Γ => quotient ∈ Γ :=
  .derive

end Flags

section Alu

instance : Closed (decodeBinopRmRWithSize prefixes bytes cursor kind size) := .derive

instance : Closed (decodeBinopRmR prefixes bytes cursor kind) := .derive

instance : Closed (decodeBinopRRmWithSize prefixes bytes cursor kind size) := .derive

instance : Closed (decodeBinopRRm prefixes bytes cursor kind) := .derive

instance : Closed (decodeAdcSbbRmR prefixes bytes cursor isSbb size) := .derive

instance : Closed (decodeAdcSbbRRm prefixes bytes cursor isSbb size) := .derive

instance : Closed (decodeCmpRmRWithSize prefixes bytes cursor size) := .derive

instance : Closed (decodeCmpRmR prefixes bytes cursor) := .derive

instance : Closed (decodeCmpRRmWithSize prefixes bytes cursor size) := .derive

instance : Closed (decodeTestRmRWithSize prefixes bytes cursor size) := .derive

instance : Closed (decodeTestRmR prefixes bytes cursor) := .derive

instance : Needs (emitAccImm opcode lhs rhs size) fun Γ => lhs ∈ Γ ∧ rhs ∈ Γ :=
  .derive (emitAccImm.eq_def ..)

instance : Closed (decodeAccImm prefixes opcode bytes cursor) := .derive

instance :
    Needs (emitGroup1 reg dst lhs imm size) fun Γ => (∀ r ∈ dst.refs, r ∈ Γ) ∧ lhs ∈ Γ ∧ imm ∈ Γ :=
  .derive (emitGroup1.eq_def ..)

instance : Closed (decodeAluRmImm prefixes opcode bytes cursor opcodeGuestPc) := .derive

instance : Closed (decodeImulImm prefixes opcode bytes cursor) := .derive

instance : Provides (emitExtendToI64 value fromSize isSigned) fun Γ => value ∈ Γ := .derive

instance :
    Needs (emitRaxRdxPair raxRef rhsRef size loKind hiKind) fun Γ => raxRef ∈ Γ ∧ rhsRef ∈ Γ :=
  .derive

instance : Needs (emitMulImulPair raxRef rhsRef size isSigned) fun Γ => raxRef ∈ Γ ∧ rhsRef ∈ Γ :=
  .derive

instance : Needs (emitWideDivPair raxRef rhsRef isSigned) fun Γ => raxRef ∈ Γ ∧ rhsRef ∈ Γ :=
  .derive

instance : Provides (emitDividend raxRef size isSigned) fun Γ => raxRef ∈ Γ := .derive

instance : Needs (emitDivBytes quotient remainder) fun Γ => quotient ∈ Γ ∧ remainder ∈ Γ := .derive

instance : Needs (emitDivIdivPair raxRef rhsRef size isSigned) fun Γ => raxRef ∈ Γ ∧ rhsRef ∈ Γ :=
  .derive

instance : Closed (decodeGroup3Test prefixes opcode bytes cursor modrm size) := .derive

instance : Provides (emitNotNeg reg value size) fun Γ => value ∈ Γ := .derive

instance : Closed (decodeGroup3Unary prefixes bytes cursor modrm size) := .derive

instance : Needs (emitMulDiv reg raxRef rhsRef size) fun Γ => raxRef ∈ Γ ∧ rhsRef ∈ Γ :=
  .derive (emitMulDiv.eq_def ..)

instance : Closed (decodeGroup3MulDiv prefixes bytes cursor modrm size) := .derive

instance : Closed (decodeGroup3 prefixes opcode bytes cursor) := .derive

instance : Closed (emitIncDec prefixes bytes cursor modrm kind size) := .derive

instance : Closed (decodeGroup4 prefixes bytes cursor) := .derive

instance : Needs (emitPush value) fun Γ => value ∈ Γ := .derive

end Alu

section Move

instance : Closed (decodeMovRmRWithSize prefixes bytes cursor size) := .derive

instance : Closed (decodeMovRmR prefixes bytes cursor) := .derive

instance : Closed (decodeMovRRmWithSize prefixes bytes cursor size) := .derive

instance : Closed (decodeMovRRm prefixes bytes cursor) := .derive

instance : Needs (emitMoffs opcode addr size) fun Γ => addr ∈ Γ := .derive

instance : Closed (decodeMovMoffs prefixes opcode bytes cursor) := .derive

instance : Closed (decodeLea prefixes bytes cursor) := .derive

instance : Closed (decodeMovRi prefixes opcode bytes cursor) := .derive

instance : Closed (decodeMovR8I8 prefixes opcode bytes cursor) := .derive

instance : Closed (decodeMovRmImm prefixes opcode bytes cursor) := .derive

instance : Closed (decodeMovzx prefixes bytes cursor src) := .derive

instance : Closed (decodeMovsx prefixes bytes cursor src) := .derive

instance : Needs (emitMovsxd prefixes src dstReg) fun Γ => src ∈ Γ := .derive

instance : Closed (decodeMovsxd prefixes bytes cursor) := .derive

instance : Closed (decodePushR prefixes opcode) := .derive

instance : Closed (decodePushImm prefixes opcode bytes cursor) := .derive

instance : Closed (decodePopR prefixes opcode) := .derive

instance : Closed (decodePopRm prefixes bytes cursor) := .derive

instance : Closed (decodeLeave prefixes) := .derive

instance : Closed (emitAllocFrame allocSize) := .derive

instance : Closed (decodeEnter prefixes bytes cursor) := .derive

instance : Closed decodePushfq := .derive

instance : Closed decodePopfq := .derive

instance : Closed decodeLahf := .derive

instance : Closed decodeSahf := .derive

end Move

section Shift

instance :
    EmitsSpec (emitRotateBy1 isRcr cf dst one wm1 size) (fun Γ => cf ∈ Γ ∧ dst ∈ Γ ∧ one ∈ Γ ∧ wm1 ∈ Γ)
      fun p => [p.1, p.2] := .derive

instance : Closed (emitRclRcrBy1 isRcr dstReg size) := .derive

instance :
    Provides (emitWrap refs candidate size) fun Γ => (∀ r ∈ refs.refs, r ∈ Γ) ∧ candidate ∈ Γ :=
  .derive

instance :
    EmitsSpec (emitRotate isRcr refs size) (fun Γ => (∀ r ∈ refs.refs, r ∈ Γ))
      fun p => [p.1, p.2] := .derive

instance :
    EmitsSpec (emitRclRcrValueCount isRcr dst rawCount size) (fun Γ => dst ∈ Γ ∧ rawCount ∈ Γ)
      fun p => [p.1, p.2] := .derive

instance : Needs (emitRclRcrRegCount isRcr dstReg rawCount size) fun Γ => rawCount ∈ Γ := .derive

instance : Closed (emitRclRcrCl isRcr dstReg size) := .derive

instance : Closed (emitRclRcrImm isRcr dstReg imm size) := .derive

instance : EmitsSpec (emitShiftCount opcode bytes immOffset) (fun _ => True) fun p => [p.1] :=
  .derive (emitShiftCount.eq_def ..)

instance : Closed (decodeGroup2RclRcr prefixes opcode bytes cursor modrm modrmBytes size) := .derive

instance : Closed (decodeGroup2 prefixes opcode bytes cursor) := .derive

end Shift

section Atomic

instance : Closed (decodeXadd prefixes opcode bytes cursor) := .derive

instance : EmitsSpec (emitRaxKeep acc size) (fun Γ => acc ∈ Γ) fun p => [p.1] :=
  .derive (emitRaxKeep.eq_def ..)

instance :
    EmitsSpec (emitCmpxchgDst prefixes bytes cursor modrm acc src size) (fun Γ => acc ∈ Γ ∧ src ∈ Γ)
      fun p => [p.1] := .derive

instance :
    EmitsSpec (emitNewDst dstReg src dst size) (fun Γ => src ∈ Γ ∧ dst ∈ Γ)
      fun o => o.toList.map Prod.snd :=
  .derive (emitNewDst.eq_def ..)

instance : Needs (emitStoreDst newDst size) fun Γ => ∀ p ∈ newDst, p.2 ∈ Γ :=
  .derive (emitStoreDst.eq_def ..)

instance : Closed (decodeCmpxchg prefixes opcode bytes cursor) := .derive

instance : Needs (emitCmpxchg8b addr) fun Γ => addr ∈ Γ := .derive

instance : Closed (decodeMovnti prefixes opcode bytes cursor) := .derive

end Atomic

section Strings

instance : Closed (decodeXchg prefixes opcode bytes cursor) := .derive

instance : Closed (decodeXchgAcc prefixes opcode) := .derive

instance : Closed (decodeXlat prefixes) := .derive

instance : Closed (decodeSignExtendAcc prefixes) := .derive

instance : Closed (decodeSignExtendAccToDx prefixes) := .derive

instance : Needs (emitAdvance reg pointer step) fun Γ => pointer ∈ Γ ∧ step ∈ Γ := .derive

instance : Closed (decodeLods prefixes opcode) := .derive

instance : Closed (decodeStos prefixes opcode) := .derive

instance : Closed (decodeScas prefixes opcode) := .derive

instance : Closed (decodeCmps prefixes opcode) := .derive

instance : Closed (decodeMovs prefixes opcode) := .derive

end Strings

section Control

instance : Closed (decodeCondJumpRel8 bytes cursor opcodeGuestPc) := .derive

instance : Closed (decodeCondJumpRel32 opcode bytes cursor opcodeGuestPc) := .derive

instance : Closed (decodeCallRel32 bytes cursor opcodeGuestPc) := .derive

instance : Closed (decodeJumpRel8 bytes cursor opcodeGuestPc) := .derive

instance : Closed (decodeJumpRel32 bytes cursor opcodeGuestPc) := .derive

instance : Closed (decodeJrcxzRel8 prefixes bytes cursor opcodeGuestPc) := .derive

instance : Closed (decodeLoopRel8 prefixes bytes cursor opcodeGuestPc) := .derive

instance : Closed (decodeRet prefixes) := .derive

instance : Closed (decodeRetImm16 prefixes bytes cursor) := .derive

instance : Closed (decodeSyscall prefixes opcode) := .derive

instance : Closed (decodeUd2 prefixes opcode) := .derive

instance : Closed (decodeOneByteTrap prefixes opcode kind) := .derive

instance : Closed (decodeTwoByteTrap prefixes opcode kind) := .derive

instance : Closed (decodeCpuid prefixes opcode) := .derive

instance : Closed (decodeCacheTrap prefixes opcode) := .derive

instance : Closed (decodeIntImm8 prefixes opcode bytes cursor) := .derive

instance : Closed (decodeLegacyInvalidImm8 prefixes opcode bytes cursor) := .derive

instance : Closed (decodeIoTrapImm8 prefixes opcode bytes cursor) := .derive

instance : Closed (decodeDescriptorGroup prefixes opcode bytes cursor) := .derive

instance : Closed (decodeTwoByteRmTrap prefixes opcode bytes cursor kind) := .derive

instance : Closed (decodeTwoByteAnyRmTrap prefixes opcode bytes cursor kind) := .derive

instance : Needs (emitSplitEdxEax value) fun Γ => value ∈ Γ := .derive

instance : Closed (decodeRdtsc prefixes opcode) := .derive

instance : Closed (decodeXgetbv prefixes opcode) := .derive

instance : Closed (decodeSystemGroup prefixes opcode bytes cursor) := .derive

instance : Closed (decodeNopRm opcode bytes cursor) := .derive

instance : Closed (decodePrefetch opcode bytes cursor) := .derive

instance : Closed (decodePrefetchw opcode bytes cursor) := .derive

instance : Closed (decodeMmxStateNoop prefixes opcode) := .derive

instance : Closed (decodeEndbr prefixes opcode bytes cursor) := .derive

instance : Closed (decodeFence prefixes opcode bytes cursor) := .derive

instance : Closed (decodeX87D9 prefixes opcode bytes cursor) := .derive

instance : Closed (decodeX87DB prefixes opcode bytes cursor) := .derive

end Control

section BitOps

instance : Closed (decodeCmov prefixes opcode bytes cursor) := .derive

instance : Closed (decodeSetcc prefixes opcode bytes cursor) := .derive

instance : Closed (decodePopcnt prefixes bytes cursor) := .derive

instance : Closed (decodeLzcnt prefixes bytes cursor) := .derive

instance : Closed (decodeTzcnt prefixes bytes cursor) := .derive

instance : Provides (emitBitIndex isBsr src size) fun Γ => src ∈ Γ := .derive

instance : Closed (decodeBsfBsr prefixes bytes cursor isBsr) := .derive

instance :
    EmitsSpec (emitBtOperand operand imm) (fun Γ => (∀ r ∈ operand.refs, r ∈ Γ)) fun o => o.refs :=
  .derive (emitBtOperand.eq_def ..)

instance :
    Needs (emitBtStore opcode reg dst src bits) fun Γ =>
      (∀ r ∈ dst.refs, r ∈ Γ) ∧ src ∈ Γ ∧ bits ∈ Γ :=
  .derive (emitBtStore.eq_def ..)

instance : Closed (decodeBtGroupImm8 prefixes opcode bytes cursor) := .derive

instance : Closed (decodeBswap prefixes opcode) := .derive

instance : Needs (emitMovbe opcode reg addr size) fun Γ => addr ∈ Γ := .derive

instance : Closed (decodeMovbe prefixes opcode bytes cursor) := .derive

instance : Closed (decodeCrc32c prefixes opcode bytes cursor) := .derive

end BitOps

section Vector

instance :
    EmitsSpec (loadVexRm prefixes vex bytes cursor modrm size) (fun _ => True) fun p => [p.1] :=
  .derive

instance : Closed (decodeVexBmi1Andn prefixes vex opcode bytes cursor) := .derive

instance :
    EmitsSpec (emitBls reg src zero one size) (fun Γ => src ∈ Γ ∧ zero ∈ Γ ∧ one ∈ Γ)
      fun p => [p.1, p.2] :=
  .derive (emitBls.eq_def ..)

instance : Closed (decodeVexBmi1BlsGroup prefixes vex opcode bytes cursor) := .derive

instance : Provides (emitBextrField src start len size) fun Γ => src ∈ Γ ∧ start ∈ Γ ∧ len ∈ Γ :=
  .derive

instance : Closed (decodeVexBmi1Bextr prefixes vex opcode bytes cursor) := .derive

instance : Provides (loadF16cSrc prefixes vex bytes cursor modrm) fun _ => True := .derive

instance : Closed (decodeVexVcvtph2ps prefixes vex opcode bytes cursor) := .derive

instance : Needs (storeF16cDst prefixes vex bytes cursor modrm result) fun Γ => result ∈ Γ :=
  .derive

instance : Closed (decodeVexVcvtps2ph prefixes vex opcode bytes cursor) := .derive

instance : Closed (decodeVex prefixes opcode bytes cursor) :=
  .derive (decodeVex.eq_def ..)

instance : Provides (loadXmmRm prefixes bytes cursor modrm) fun _ => True := .derive

instance : Closed (decodePclmulqdq prefixes opcode bytes cursor) := .derive

instance :
    EmitsSpec (emitExplicitLengths opcode) (fun _ => True) fun p => p.1.toList ++ p.2.toList :=
  .derive

instance :
    Needs (emitPcmpxstrResult opcode lhs rhs lhsLen rhsLen imm8) fun Γ =>
      lhs ∈ Γ ∧ rhs ∈ Γ ∧ (∀ r ∈ lhsLen, r ∈ Γ) ∧ (∀ r ∈ rhsLen, r ∈ Γ) := .derive

instance :
    Needs (emitPcmpxstrFlags lhs rhs lhsLen rhsLen imm8) fun Γ =>
      lhs ∈ Γ ∧ rhs ∈ Γ ∧ (∀ r ∈ lhsLen, r ∈ Γ) ∧ (∀ r ∈ rhsLen, r ∈ Γ) := .derive

instance : Closed (decodePcmpxstr prefixes opcode bytes cursor) := .derive

end Vector

section ThreeByte

instance : Closed (decodeThreeByte0F38 prefixes bytes cursor) := .derive

instance : Closed (decodeThreeByte0F3A prefixes bytes cursor) := .derive

instance : Closed (decodeNop prefixes opcode) := .derive

instance : Closed (decodeNoop prefixes opcode) := .derive

end ThreeByte

end Prisma.Decoder
