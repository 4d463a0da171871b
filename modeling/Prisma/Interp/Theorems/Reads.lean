import Prisma.Interp.Theorems.Arith
import Prisma.Interp.Theorems.Block
import Prisma.Interp.Theorems.Flags

namespace Prisma

open List

-- How many low bits of the right operand a `BinOp` reads. Shift and rotate counts are cut at 64.
def BinOpKind.rhsBits (op : BinOpKind) (size : OpSize) : Nat :=
  match op with
  | .shl | .shr | .sar | .rol | .ror => 6
  | _ => size.bitWidth

namespace Op

-- The scalar operands that an operation reads in a machine state, with the number of low bits it
-- reads of each.
def scalarReads (op : Op) (cpu : Cpu) : List (Ref × Nat) :=
  match op with
  | .storeReg _ value size => [(value, size.bitWidth)]
  | .binOp op lhs rhs size => [(lhs, size.bitWidth), (rhs, op.rhsBits size)]
  | .wideDiv high low divisor _ _ => [(high, 64), (low, 64), (divisor, 64)]
  | .pcmpStrIndex _ _ lhsLen rhsLen _ | .pcmpStrMask _ _ lhsLen rhsLen _
  | .pcmpStrFlags _ _ lhsLen rhsLen _ => (lhsLen.toList ++ rhsLen.toList).map (·, 32)
  | .extend value fromSize toSize _ => [(value, min fromSize.bitWidth toSize.bitWidth)]
  | .truncate value toSize => [(value, toSize.bitWidth)]
  | .compare _ lhs rhs size | .cmpFlags lhs rhs size | .writeFlags _ lhs rhs size
  | .aluFlags _ lhs rhs size | .aluFlagsPreserveCarry _ lhs rhs size =>
    [(lhs, size.bitWidth), (rhs, size.bitWidth)]
  | .storeCarry value => [(value, 1)]
  | .storeRflags value => [(value, 64)]
  | .storeRflagsFromNzcv _ pf af => (pf.toList ++ af.toList).map (·, 1)
  | .storeRflagsFromBits pf af zf sf of => (pf.toList ++ af.toList ++ [zf, sf, of]).map (·, 1)
  | .select cc trueValue falseValue size =>
    [(if evalCc cc cpu.restoreFlags.flags then trueValue else falseValue, size.bitWidth)]
  | .trapIf condition _ => [(condition, 64)]
  | _ => []

-- The vector operands that an operation reads, with the first bit and the number of bits it reads of
-- each.
def vectorReads : Op → List (Ref × Nat × Nat)
  | .storeVecReg _ value => [(value, 0, 128)]
  | .vecClMul lhs rhs lhsHigh rhsHigh =>
    [(lhs, if lhsHigh then 64 else 0, 64), (rhs, if rhsHigh then 64 else 0, 64)]
  | .vecF16Cvt kind src _ => [(src, 0, match kind with | .phToPs => 64 | .psToPh => 128)]
  | .pcmpStrIndex lhs rhs _ _ _ | .pcmpStrMask lhs rhs _ _ _ | .pcmpStrFlags lhs rhs _ _ _ =>
    [(lhs, 0, 128), (rhs, 0, 128)]
  | _ => []

end Op

-- Two values agree on the bits that are read of them.
abbrev SameLow (n : Nat) (v w : U64) : Prop :=
  v.setWidth n = w.setWidth n

abbrev SameBits (start len : Nat) (v w : U128) : Prop :=
  v.extractLsb' start len = w.extractLsb' start len

section Functions

variable {a a' b b' : U64} {size : OpSize}

namespace SameLow

theorem toNat_mod (h : SameLow n a a') : a.toNat % 2 ^ n = a'.toNat % 2 ^ n := by
  have h := congrArg BitVec.toNat h
  rwa [BitVec.toNat_setWidth, BitVec.toNat_setWidth] at h

theorem eq (h : SameLow 64 a a') : a = a' := by
  rwa [SameLow, BitVec.setWidth_eq, BitVec.setWidth_eq] at h

theorem mask (h : SameLow size.bitWidth a a') : mask a size = mask a' size :=
  mask_eq_iff.mpr h

theorem count_mod (h : SameLow 6 b b') (hk : k ∣ 64) :
    (b.setWidth size.bitWidth).toNat % k = (b'.setWidth size.bitWidth).toNat % k := by
  have hw : k ∣ 2 ^ size.bitWidth := hk.trans (by cases size <;> decide)
  have h := congrArg (· % k) h.toNat_mod
  simp only [Nat.mod_mod_of_dvd _ hk, Nat.reducePow] at h
  rwa [BitVec.toNat_setWidth, BitVec.toNat_setWidth, Nat.mod_mod_of_dvd _ hw,
    Nat.mod_mod_of_dvd _ hw]

end SameLow

theorem evalBinop_congr {op : BinOpKind} (ha : SameLow size.bitWidth a a')
    (hb : SameLow (op.rhsBits size) b b') : evalBinop op a b size = evalBinop op a' b' size := by
  rw [evalBinop_eq, evalBinop_eq, ha]
  cases op
  case shl | shr | sar =>
    simp only [BinOpKind.apply, SameLow.count_mod hb (Nat.dvd_refl 64)]
  case rol =>
    simp only [BinOpKind.apply]
    rw [← BitVec.rotateLeft_mod_eq_rotateLeft, SameLow.count_mod hb size.bitWidth_dvd,
      BitVec.rotateLeft_mod_eq_rotateLeft]
  case ror =>
    simp only [BinOpKind.apply]
    rw [← BitVec.rotateRight_mod_eq_rotateRight, SameLow.count_mod hb size.bitWidth_dvd,
      BitVec.rotateRight_mod_eq_rotateRight]
  all_goals
    have hb : b.setWidth size.bitWidth = b'.setWidth size.bitWidth := hb
    rw [hb]

theorem subFlags_congr (ha : SameLow size.bitWidth a a') (hb : SameLow size.bitWidth b b') :
    subFlags a b size = subFlags a' b' size := by
  simp only [subFlags, ha.mask, hb.mask]

theorem addFlags_congr (ha : SameLow size.bitWidth a a') (hb : SameLow size.bitWidth b b') :
    addFlags a b size = addFlags a' b' size := by
  simp only [addFlags, ha.mask, hb.mask]

theorem logicFlags_congr (h : SameLow size.bitWidth a a') :
    logicFlags a size = logicFlags a' size := by
  rw [logicFlags, logicFlags, h.mask, msb_eq, msb_eq, h]

theorem flagsOfBinop_congr (ha : SameLow size.bitWidth a a') (hb : SameLow size.bitWidth b b') :
    flagsOfBinop op a b size = flagsOfBinop op a' b' size := by
  cases op
  case sub => exact congrArg some (subFlags_congr ha hb)
  case add => exact congrArg some (addFlags_congr ha hb)
  case and =>
    refine congrArg some (logicFlags_congr ?_)
    rw [SameLow, BitVec.setWidth_and, BitVec.setWidth_and, ha, hb]
  case or =>
    refine congrArg some (logicFlags_congr ?_)
    rw [SameLow, BitVec.setWidth_or, BitVec.setWidth_or, ha, hb]
  case xor =>
    refine congrArg some (logicFlags_congr ?_)
    rw [SameLow, BitVec.setWidth_xor, BitVec.setWidth_xor, ha, hb]
  all_goals rfl

theorem and_one_congr (h : SameLow 1 a a') : a &&& 1 = a' &&& 1 := by
  apply BitVec.eq_of_toNat_eq
  rw [BitVec.toNat_and, BitVec.toNat_and]
  exact (Nat.and_two_pow_sub_one_eq_mod a.toNat 1).trans
    (h.toNat_mod.trans (Nat.and_two_pow_sub_one_eq_mod a'.toNat 1).symm)

theorem isOne_congr (h : SameLow 1 a a') : Rflags.isOne a = Rflags.isOne a' := by
  rw [Rflags.isOne, Rflags.isOne, and_one_congr h]

theorem setWidth_signExtendToU64 (hn : n ≤ size.bitWidth) :
    (signExtendToU64 a size).setWidth n = a.setWidth n := by
  have hw := size.bitWidth_le
  rw [signExtendToU64_eq]
  apply BitVec.eq_of_getLsbD_eq
  intro i hi
  simp only [BitVec.getLsbD_setWidth, BitVec.getLsbD_signExtend, hi, show i < 64 by omega,
    show i < size.bitWidth by omega, decide_true, Bool.true_and, if_true]

-- Extending to a narrower size truncates, so only the bits that both sizes have are read.
theorem extend_congr {toSize : OpSize} {isSigned : Bool}
    (h : SameLow (min size.bitWidth toSize.bitWidth) a a') :
    mask (if isSigned then signExtendToU64 a size else mask a size) toSize =
      mask (if isSigned then signExtendToU64 a' size else mask a' size) toSize := by
  by_cases hw : size.bitWidth ≤ toSize.bitWidth
  case pos =>
    rw [Nat.min_eq_left hw] at h
    rw [signExtendToU64_eq, signExtendToU64_eq, h, h.mask]
  case neg =>
    have hw : toSize.bitWidth ≤ size.bitWidth := by omega
    rw [Nat.min_eq_right hw] at h
    have hm : ∀ v, (mask v size).setWidth toSize.bitWidth = v.setWidth toSize.bitWidth := fun v => by
      rw [mask_eq_setWidth, BitVec.setWidth_setWidth_of_le _ (by have := size.bitWidth_le; omega),
        BitVec.setWidth_setWidth_of_le _ hw]
    apply mask_eq_iff.mpr
    cases isSigned
    case false => simpa only [Bool.false_eq_true, if_false, hm] using h
    case true => simpa only [if_true, setWidth_signExtendToU64 hw] using h

end Functions

section Vectors

variable {v v' : U128}

theorem SameBits.eq (h : SameBits 0 128 v v') : v = v' := by
  apply BitVec.eq_of_getLsbD_eq
  intro i hi
  have h := congrArg (·.getLsbD i) h
  simpa only [BitVec.getLsbD_extractLsb', hi, decide_true, Bool.true_and, Nat.zero_add] using h

theorem vecLaneU64_eq (high : Bool) :
    vecLaneU64 v high = v.extractLsb' (if high then 64 else 0) 64 := by
  cases high
  case true => rfl
  case false =>
    apply BitVec.eq_of_getLsbD_eq
    intro i hi
    simp [vecLaneU64]

theorem vecLaneU64_congr (h : SameBits (if high then 64 else 0) 64 v v') :
    vecLaneU64 v high = vecLaneU64 v' high := by
  rw [vecLaneU64_eq, vecLaneU64_eq, h]

theorem f16cPhToPs_congr (h : SameBits 0 64 v v') : f16cPhToPs v = f16cPhToPs v' := by
  have hl : ∀ lane, lane < 4 → (((v >>> (lane * 16)) &&& 0xffff).setWidth 16 : U16) =
      ((v' >>> (lane * 16)) &&& 0xffff).setWidth 16 := by
    intro lane hlane
    apply BitVec.eq_of_getLsbD_eq
    intro i hi
    have h := congrArg (·.getLsbD (lane * 16 + i)) h
    simp only [BitVec.getLsbD_extractLsb', show lane * 16 + i < 64 by omega, decide_true,
      Bool.true_and, Nat.zero_add] at h
    simp only [BitVec.getLsbD_setWidth, BitVec.getLsbD_and, BitVec.getLsbD_ushiftRight, h]
  unfold f16cPhToPs
  refine foldl_ext _ _ _ fun out lane hlane => ?_
  rw [hl lane (mem_range.mp hlane)]

theorem pcmpEffectiveLen_congr {l l' : Option U64}
    (h : l.map (·.setWidth 32) = l'.map (·.setWidth 32)) :
    pcmpEffectiveLen v n l = pcmpEffectiveLen v n l' := by
  cases l <;> cases l'
  case none.none => rfl
  case some.some => simp_all [pcmpEffectiveLen]
  all_goals simp at h

theorem evalPcmpStr_congr {l l' r r' : Option U64}
    (hl : l.map (·.setWidth 32) = l'.map (·.setWidth 32))
    (hr : r.map (·.setWidth 32) = r'.map (·.setWidth 32)) :
    evalPcmpStr v v' l r imm8 = evalPcmpStr v v' l' r' imm8 := by
  simp only [evalPcmpStr, pcmpEffectiveLen_congr hl, pcmpEffectiveLen_congr hr]

end Vectors

section EvalOp

variable {f : Ref → Ref} {env : Env}

theorem map_map_low {o : Option Ref}
    (h : ∀ p ∈ o.toList.map (·, n), SameLow p.2 (env.vals p.1) (env.vals (f p.1))) :
    ((o.map f).map env.vals).map (·.setWidth n) = (o.map env.vals).map (·.setWidth n) := by
  cases o
  case none => rfl
  case some r => simpa using (h (r, n) (by simp)).symm

theorem any_isOne_congr {l l' : Option U64}
    (h : l.map (·.setWidth 1) = l'.map (·.setWidth 1)) :
    l.any Rflags.isOne = l'.any Rflags.isOne ∧ l.isSome = l'.isSome := by
  cases l <;> cases l'
  case none.none => exact ⟨rfl, rfl⟩
  case some.some a a' => exact ⟨isOne_congr (Option.some.inj h), rfl⟩
  all_goals simp at h

theorem storeRflagsFromFlags_congr {pf pf' af af' : Option U64}
    (hp : pf.map (·.setWidth 1) = pf'.map (·.setWidth 1))
    (ha : af.map (·.setWidth 1) = af'.map (·.setWidth 1)) :
    storeRflagsFromFlags regs flags carry pf af = storeRflagsFromFlags regs flags carry pf' af' := by
  have ⟨hp, hp'⟩ := any_isOne_congr hp
  have ⟨ha, ha'⟩ := any_isOne_congr ha
  simp only [storeRflagsFromFlags, Rflags.clearMask, hp, hp', ha, ha']

theorem storeRflagsFromBits_congr {pf pf' af af' : Option U64}
    (hp : pf.map (·.setWidth 1) = pf'.map (·.setWidth 1))
    (ha : af.map (·.setWidth 1) = af'.map (·.setWidth 1)) (hz : SameLow 1 zf zf')
    (hs : SameLow 1 sf sf') (ho : SameLow 1 of of') :
    storeRflagsFromBits regs pf af zf sf of = storeRflagsFromBits regs pf' af' zf' sf' of' := by
  have ⟨hp, hp'⟩ := any_isOne_congr hp
  have ⟨ha, ha'⟩ := any_isOne_congr ha
  simp only [storeRflagsFromBits, Rflags.clearMask, hp, hp', ha, ha', isOne_congr hz, isOne_congr hs,
    isOne_congr ho]

-- An operation sees its operands only through the bits it reads: other refs will do if they agree on
-- these.
theorem evalOp_mapRefs_of_reads {op : Op} {hasResult : Bool} {cpu : Cpu}
    (hs : ∀ p ∈ op.scalarReads cpu, SameLow p.2 (env.vals p.1) (env.vals (f p.1)))
    (hv : ∀ p ∈ op.vectorReads, SameBits p.2.1 p.2.2 (env.vecVals p.1) (env.vecVals (f p.1))) :
    evalOp (op.mapRefs f) hasResult env cpu = evalOp op hasResult env cpu := by
  cases op
  case storeRflagsFromNzcv carry pf af =>
    simp only [Op.scalarReads, map_append, mem_append, or_imp, forall_and] at hs
    simp only [Op.mapRefs, evalOp,
      storeRflagsFromFlags_congr (map_map_low hs.left) (map_map_low hs.right)]
  case storeRflagsFromBits pf af zf sf of =>
    simp only [Op.scalarReads, map_append, mem_append, or_imp, forall_and] at hs
    obtain ⟨⟨hp, ha⟩, hb⟩ := hs
    simp only [map_cons, map_nil, mem_cons, not_mem_nil, or_false,
      forall_eq_or_imp, forall_eq] at hb
    obtain ⟨hz, hs, ho⟩ := hb
    simp only [Op.mapRefs, evalOp,
      storeRflagsFromBits_congr (map_map_low hp) (map_map_low ha) hz.symm hs.symm ho.symm]
  case pcmpStrIndex lhs rhs lhsLen rhsLen imm8 | pcmpStrMask lhs rhs lhsLen rhsLen imm8
      | pcmpStrFlags lhs rhs lhsLen rhsLen imm8 =>
    simp only [Op.scalarReads, map_append, mem_append, or_imp, forall_and] at hs
    simp only [Op.vectorReads, mem_cons, not_mem_nil, or_false, forall_eq_or_imp,
      forall_eq] at hv
    simp only [Op.mapRefs, evalOp, hv.left.eq, hv.right.eq,
      evalPcmpStr_congr (map_map_low hs.left) (map_map_low hs.right)]
  case select cc trueValue falseValue size =>
    simp only [Op.scalarReads, mem_cons, not_mem_nil, or_false, forall_eq] at hs
    simp only [Op.mapRefs, evalOp]
    split at hs
    case isTrue h => simp only [h, if_true, hs.mask]
    case isFalse h => simp only [h, if_false, hs.mask, Bool.false_eq_true]
  all_goals first
    | rfl
    | simp only [Op.scalarReads, Op.vectorReads, mem_cons, not_mem_nil, or_false,
        forall_eq_or_imp, forall_eq] at hs hv
  case storeReg reg value size => simp only [Op.mapRefs, evalOp, storeReg, hs.mask]
  case binOp op lhs rhs size => simp only [Op.mapRefs, evalOp, evalBinop_congr hs.left hs.right]
  case wideDiv high low divisor signed result =>
    simp only [Op.mapRefs, evalOp, hs.left.eq, hs.right.left.eq, hs.right.right.eq]
  case compare cc lhs rhs size => simp only [Op.mapRefs, evalOp, subFlags_congr hs.left hs.right]
  case cmpFlags lhs rhs size => simp only [Op.mapRefs, evalOp, subFlags_congr hs.left hs.right]
  case writeFlags op lhs rhs size =>
    simp only [Op.mapRefs, evalOp, flagsOfBinop_congr hs.left hs.right]
  case aluFlags op lhs rhs size =>
    simp only [Op.mapRefs, evalOp, flagsOfBinop_congr hs.left hs.right]
  case aluFlagsPreserveCarry op lhs rhs size =>
    simp only [Op.mapRefs, evalOp, subFlags_congr hs.left hs.right, addFlags_congr hs.left hs.right]
  case extend value fromSize toSize isSigned =>
    simp only [Op.mapRefs, evalOp, extend_congr hs]
  case truncate value toSize => simp only [Op.mapRefs, evalOp, hs.mask]
  case storeCarry value => simp only [Op.mapRefs, evalOp, storeCarry, and_one_congr hs]
  case storeRflags value => simp only [Op.mapRefs, evalOp, hs.eq]
  case trapIf condition kind => simp only [Op.mapRefs, evalOp, hs.eq]
  case storeVecReg xmmIndex value => simp only [Op.mapRefs, evalOp, hv.eq]
  case vecClMul lhs rhs lhsHigh rhsHigh =>
    simp only [Op.mapRefs, evalOp, vecLaneU64_congr hv.left, vecLaneU64_congr hv.right]
  case vecF16Cvt kind src rounding =>
    cases kind
    case phToPs => simp only [Op.mapRefs, evalOp, f16cPhToPs_congr hv]
    case psToPh => simp only [Op.mapRefs, evalOp, SameBits.eq hv]

end EvalOp

end Prisma
