import Prisma.Interp.Theorems.X86Flags
import Prisma.Decoder.Theorems.FlagValues

namespace Prisma.Decoder

open Emission Machine

section Registers

theorem mapReg_eq (field : BitVec 3) (rex : RexPrefix) (isRegField : Bool) :
    mapReg field rex isRegField = X86.register (if isRegField then rex.r else rex.b) field := by
  have h : ∀ (field : BitVec 3) (b : Bool), mapReg field { b } false = X86.register b field := by
    decide
  have hm : mapReg field rex isRegField =
      mapReg field { b := if isRegField then rex.r else rex.b } false := rfl
  rw [hm, h]

theorem storeReg_word (regs : GuestRegs) (reg : Gpr) {size : OpSize} (x : BitVec size.bitWidth) :
    storeReg regs reg (x.setWidth 64) size = X86.writeGpr regs reg x := by
  simp only [storeReg, X86.writeGpr, X86.setGpr, mask_word]
  congr 1
  funext r
  rw [Function.update_apply]
  split
  case isFalse => rfl
  case isTrue =>
    cases size
    case i64 | i32 => rfl
    case i16 => exact congrArg (· ||| _) (Bits.and_not_low (regs.gpr reg) 16)
    case i8 => exact congrArg (· ||| _) (Bits.and_not_low (regs.gpr reg) 8)

theorem storeReg_eq (regs : GuestRegs) (reg : Gpr) (v : U64) (size : OpSize) :
    storeReg regs reg v size = X86.writeGpr regs reg (v.setWidth size.bitWidth) := by
  rw [← storeReg_word, storeReg_inj, ← mask_eq_setWidth, mask_mask]

theorem storeReg_leaves (reg : Gpr) (h : Lookup Γ value (.scalar v)) :
    Leaves Γ cpu (pushStmt (.storeReg reg value size))
      (X86.writeGpr cpu.regs reg (v.setWidth size.bitWidth)) :=
  (storeReg_updates reg).mono fun _ _ _ ⟨hΔ, hc⟩ => ⟨hΔ, by rw [hc, ← storeReg_eq]⟩

variable {modrm : ModRm} {prefixes : PrefixSet} {bytes : List U8} {cursor : Nat}

theorem rmOperand_register (h : modrm.mod = 3) : rmOperand modrm prefixes bytes cursor =
    pure (.reg (X86.register prefixes.rex.b modrm.rm), 1) := by
  rw [rmOperand, rmOperandAt, if_pos h, mapReg_eq]
  rfl

theorem loadRm_register (h : modrm.mod = 3) :
    loadRm modrm prefixes bytes cursor size = do
      let value ← pushRef (.loadReg (X86.register prefixes.rex.b modrm.rm) size)
      return (value, 1) := by
  rw [loadRm, rmOperand_register h, pure_bind]
  rfl

end Registers

section Flags

variable {Γ : Facts} {cpu : Cpu} {size : OpSize} {lhs rhs result : Ref} {x y r : BitVec size.bitWidth}

-- The value of AF, for the operations that define it.
def auxValue (kind : BinOpKind) {w : Nat} (x y r : BitVec w) : Option U64 :=
  match kind with
  | .add | .sub => some (bit ((x ^^^ y ^^^ r).getLsbD 4))
  | _ => none

theorem pushPfAfForAlu_evaluates (kind : BinOpKind) (hl : Lookup Γ lhs (word x))
    (hr : Lookup Γ rhs (word y)) (h : Lookup Γ result (word r)) :
    Evaluates Γ cpu (pushPfAfForAlu kind lhs rhs result size) fun p Δ c => c = cpu ∧
      (∀ env, (∀ q ∈ Δ, Holds env q) → p.1.map env.vals = some (bit (X86.evenParity r)) ∧
        p.2.map env.vals = auxValue kind x y r) := by
  refine (pushEvenParityLowByteRef_computes h).bind fun pf => ?_
  have hdefined : Evaluates ((pf, .scalar (bit (X86.evenParity r))) :: Γ) cpu
      (do let af ← pushAuxFlagRef lhs rhs result size; return (some pf, some af)) fun p Δ c =>
      c = cpu ∧ (∀ env, (∀ q ∈ Δ, Holds env q) → p.1.map env.vals = some (bit (X86.evenParity r)) ∧
        p.2.map env.vals = some (bit ((x ^^^ y ^^^ r).getLsbD 4))) := by
    refine (pushAuxFlagRef_computes hl.there hr.there h.there).bind fun af => ?_
    refine .pure (List.Subset.refl _) ⟨rfl, fun env hh => ?_⟩
    simp only [List.mem_cons, forall_eq_or_imp, Holds] at hh
    simp [hh]
  have hundefined : Evaluates ((pf, .scalar (bit (X86.evenParity r))) :: Γ) cpu
      (return (some pf, none)) fun p Δ c =>
      c = cpu ∧ (∀ env, (∀ q ∈ Δ, Holds env q) → p.1.map env.vals = some (bit (X86.evenParity r)) ∧
        p.2.map env.vals = none) := by
    refine .pure (List.Subset.refl _) ⟨rfl, fun env hh => ?_⟩
    simp only [List.mem_cons, forall_eq_or_imp, Holds] at hh
    simp [hh]
  cases kind
  case add | sub => exact hdefined
  all_goals exact hundefined

theorem storeRflagsFromNzcv_updates {pf af : Option Ref}
    (h : ∀ env, (∀ q ∈ Γ, Holds env q) → pf.map env.vals = p ∧ af.map env.vals = a) :
    Updates Γ cpu (pushStoreRflagsFromNzcv carry pf af)
      { cpu with regs := storeRflagsFromFlags cpu.regs cpu.flags carry p a } :=
  pushStmt_updates .none fun n s hk => by
    have ⟨hp, ha⟩ := h s.env hk.holds
    simp only [evalOp, hp, ha]

theorem pushCmpFlags_updates (hl : Lookup Γ lhs (word x)) (hr : Lookup Γ rhs (word y)) :
    Updates Γ cpu (pushCmpFlags lhs rhs size)
      { regs := storeRflagsFromFlags cpu.regs (subFlags (x.setWidth 64) (y.setWidth 64) size)
          .invertArmCarry (some (bit (X86.evenParity (x - y)))) (auxValue .sub x y (x - y))
        flags := subFlags (x.setWidth 64) (y.setWidth 64) size
        nzcvLive := true } := by
  refine (binOp_computes .sub rfl).bind fun result => ?_
  refine Updates.bind cmpFlags_updates fun flags => ?_
  refine (pushPfAfForAlu_evaluates .sub hl.there hr.there .here).bind fun p Δ c ⟨hc, hp⟩ => ?_
  subst hc
  refine (storeRflagsFromNzcv_updates fun env hh =>
    hp env fun q hq => hh q (List.mem_append_left _ hq)).bind fun _ => ?_
  exact .pure (List.nil_subset _) ⟨rfl, rfl⟩

theorem aluFlags_updates (hf : flagsOfBinop kind (x.setWidth 64) (y.setWidth 64) size = some flags)
    (hl : Lookup Γ lhs (word x)) (hr : Lookup Γ rhs (word y)) :
    Updates Γ cpu (pushStmt (.aluFlags kind lhs rhs size)) (cpu.writeFlags flags) :=
  pushStmt_updates .none fun n s hk => by simp only [evalOp, hk.vals hl, hk.vals hr, hf]

theorem pushAluFlags_updates (hc : rflagsCarryModeForAlu kind = some carry)
    (ha : kind.apply x y = some r)
    (hf : flagsOfBinop kind (x.setWidth 64) (y.setWidth 64) size = some flags)
    (hl : Lookup Γ lhs (word x)) (hr : Lookup Γ rhs (word y)) :
    Updates Γ cpu (pushAluFlags kind lhs rhs size)
      { regs := storeRflagsFromFlags cpu.regs flags carry (some (bit (X86.evenParity r)))
          (auxValue kind x y r)
        flags := flags
        nzcvLive := true } := by
  simp only [pushAluFlags, hc]
  refine (binOp_computes kind ha).bind fun result => ?_
  refine (pushPfAfForAlu_evaluates kind hl.there hr.there .here).bind fun p Δ c ⟨hc, hp⟩ => ?_
  subst hc
  refine (aluFlags_updates hf (Lookup.append Δ hl.there) (Lookup.append Δ hr.there)).bind fun _ => ?_
  exact storeRflagsFromNzcv_updates fun env hh => hp env fun q hq => hh q (List.mem_append_left _ hq)

end Flags

section Forms

variable {prefixes : PrefixSet} {bytes : List U8} {cursor : Nat} {size : OpSize} {cpu : Cpu}
  {modrm : ModRm}

-- The machine state behind an operation that stores its result in a register.
def storedAlu (kind : BinOpKind) (carry : RflagsCarryMode) (flags : Flags) (dst : Gpr) {size : OpSize}
    (x y r : BitVec size.bitWidth) (cpu : Cpu) : Cpu where
  regs := storeRflagsFromFlags (X86.writeGpr cpu.regs dst r) flags carry
    (some (bit (X86.evenParity r))) (auxValue kind x y r)
  flags := flags
  nzcvLive := true

-- The machine state behind a comparison.
def compared {size : OpSize} (x y : BitVec size.bitWidth) (cpu : Cpu) : Cpu where
  regs := storeRflagsFromFlags cpu.regs (subFlags (x.setWidth 64) (y.setWidth 64) size)
    .invertArmCarry (some (bit (X86.evenParity (x - y)))) (auxValue .sub x y (x - y))
  flags := subFlags (x.setWidth 64) (y.setWidth 64) size
  nzcvLive := true

variable {kind : BinOpKind} {carry : RflagsCarryMode} {flags : Flags} {dst src : Gpr}
  {r : BitVec size.bitWidth} (hm : parseModrm bytes (cursor + 1) = .ok modrm) (hmod : modrm.mod = 3)

include hm hmod

section Stored

variable (cpu) (hc : rflagsCarryModeForAlu kind = some carry)
  (ha : kind.apply (X86.readGpr cpu.regs dst size) (X86.readGpr cpu.regs src size) = some r)
  (hf : flagsOfBinop kind ((X86.readGpr cpu.regs dst size).setWidth 64)
    ((X86.readGpr cpu.regs src size).setWidth 64) size = some flags)

include hc ha hf

theorem decodeBinopRmRWithSize_updates (hdst : X86.register prefixes.rex.b modrm.rm = dst)
    (hsrc : X86.register prefixes.rex.r modrm.reg = src) :
    Updates [] cpu (decodeBinopRmRWithSize prefixes bytes cursor kind size)
      (storedAlu kind carry flags dst (X86.readGpr cpu.regs dst size) (X86.readGpr cpu.regs src size)
        r cpu) := by
  refine .bind_lift hm ?_
  rw [mapReg_eq, if_pos rfl, hsrc, rmOperand_register hmod, hdst]
  refine (loadReg_computes src).bind fun rhs => ?_
  rw [pure_bind]
  refine (loadReg_computes dst).bind fun lhs => ?_
  refine (binOp_computes kind ha).bind fun result => ?_
  refine (storeReg_updates dst).bind fun _ => ?_
  rw [storeReg_word]
  refine (pushAluFlags_updates hc ha hf (.there .here) (.there (.there .here))).bind fun _ => ?_
  exact .pure (List.nil_subset _) ⟨rfl, rfl⟩

theorem decodeBinopRRmWithSize_updates (hdst : X86.register prefixes.rex.r modrm.reg = dst)
    (hsrc : X86.register prefixes.rex.b modrm.rm = src) :
    Updates [] cpu (decodeBinopRRmWithSize prefixes bytes cursor kind size)
      (storedAlu kind carry flags dst (X86.readGpr cpu.regs dst size) (X86.readGpr cpu.regs src size)
        r cpu) := by
  refine .bind_lift hm ?_
  simp only [mapReg_eq, if_pos, hdst, loadRm_register hmod, hsrc, bind_assoc, pure_bind]
  refine (loadReg_computes dst).bind fun lhs => ?_
  refine (loadReg_computes src).bind fun rhs => ?_
  refine (binOp_computes kind ha).bind fun result => ?_
  refine (storeReg_updates dst).bind fun _ => ?_
  rw [storeReg_word]
  refine (pushAluFlags_updates hc ha hf (.there (.there .here)) (.there .here)).bind fun _ => ?_
  exact .pure (List.nil_subset _) ⟨rfl, rfl⟩

end Stored

theorem decodeCmpRmRWithSize_updates (hdst : X86.register prefixes.rex.b modrm.rm = dst)
    (hsrc : X86.register prefixes.rex.r modrm.reg = src) :
    Updates [] cpu (decodeCmpRmRWithSize prefixes bytes cursor size)
      (compared (X86.readGpr cpu.regs dst size) (X86.readGpr cpu.regs src size) cpu) := by
  refine .bind_lift hm ?_
  simp only [mapReg_eq, if_pos, hsrc, loadRm_register hmod, hdst, bind_assoc, pure_bind]
  refine (loadReg_computes src).bind fun rhs => ?_
  refine (loadReg_computes dst).bind fun lhs => ?_
  refine (pushCmpFlags_updates .here (.there .here)).bind fun _ => ?_
  exact .pure (List.nil_subset _) ⟨rfl, rfl⟩

theorem decodeCmpRRmWithSize_updates (hdst : X86.register prefixes.rex.r modrm.reg = dst)
    (hsrc : X86.register prefixes.rex.b modrm.rm = src) :
    Updates [] cpu (decodeCmpRRmWithSize prefixes bytes cursor size)
      (compared (X86.readGpr cpu.regs dst size) (X86.readGpr cpu.regs src size) cpu) := by
  refine .bind_lift hm ?_
  simp only [mapReg_eq, if_pos, hdst, loadRm_register hmod, hsrc, bind_assoc, pure_bind]
  refine (loadReg_computes dst).bind fun lhs => ?_
  refine (loadReg_computes src).bind fun rhs => ?_
  refine (pushCmpFlags_updates (.there .here) .here).bind fun _ => ?_
  exact .pure (List.nil_subset _) ⟨rfl, rfl⟩

end Forms

section AdcSbb

variable {Γ : Facts} {cpu : Cpu} {size : OpSize} {lhs rhs result : Ref} {a b : U64}
  {x y r : BitVec size.bitWidth}

theorem writeFlags_updates (hf : flagsOfBinop kind a b size = some flags)
    (hl : Lookup Γ lhs (.scalar a)) (hr : Lookup Γ rhs (.scalar b)) :
    Updates Γ cpu (pushRef (.writeFlags kind lhs rhs size)) (cpu.writeFlags flags) :=
  pushRef_updates .none fun n s hk => by simp only [evalOp, hk.vals hl, hk.vals hr, hf]

theorem readCarryOut_computes (flags : Ref) (fromSub : Bool) :
    Computes Γ cpu (pushRef (.readCarryOut flags fromSub))
      (.scalar (bit (if fromSub then !cpu.flags.c else cpu.flags.c))) :=
  pushRef_yields fun _ _ _ => rfl

theorem carry_and_one (cf : U64) : cf &&& 1 = bit (cf.getLsbD 0) := by
  rw [BitVec.ofNat_eq_ofNat, BitVec.and_one_eq_setWidth_ofBool_getLsbD]
  cases cf.getLsbD 0 <;> rfl

-- The result of ADC or SBB and the carry.
def adcSbbResult (isSbb : Bool) {w : Nat} (x y : BitVec w) (c : Bool) : BitVec w :=
  if isSbb then x - y - Bits.carryIn w c else x + y + Bits.carryIn w c

def adcSbbCarry (isSbb : Bool) {w : Nat} (x y : BitVec w) (c : Bool) : Bool :=
  if isSbb then x.toNat < y.toNat + c.toNat else 2 ^ w ≤ x.toNat + y.toNat + c.toNat

-- The operation that ADC and SBB are made of, and the carry-out of the first and the second one.
abbrev adcSbbOp (isSbb : Bool) : BinOpKind :=
  if isSbb then .sub else .add

def carryOut (isSbb : Bool) {w : Nat} (x y : BitVec w) : Bool :=
  if isSbb then x.toNat < y.toNat else 2 ^ w ≤ x.toNat + y.toNat

theorem adcSbbOp_apply (isSbb : Bool) (x y : BitVec w) :
    (adcSbbOp isSbb).apply x y = some (if isSbb then x - y else x + y) := by
  cases isSbb <;> rfl

theorem flagsOfBinop_adcSbbOp (isSbb : Bool) (a b : U64) (size : OpSize) :
    flagsOfBinop (adcSbbOp isSbb) a b size =
      some (if isSbb then subFlags a b size else addFlags a b size) := by
  cases isSbb <;> rfl

theorem carryOut_eq (isSbb : Bool) (a b : U64) (size : OpSize) :
    (if isSbb then !(if isSbb then subFlags a b size else addFlags a b size).c
      else (if isSbb then subFlags a b size else addFlags a b size).c) =
      carryOut isSbb (a.setWidth size.bitWidth) (b.setWidth size.bitWidth) := by
  cases isSbb
  case false => simp [addFlags_eq, carryOut]
  case true => simp [subFlags_eq, carryOut, BitVec.ule_eq_not_ult, BitVec.ult_eq_decide]

theorem adcSbbCarry_eq (isSbb : Bool) (x y : BitVec size.bitWidth) (c : Bool) :
    adcSbbCarry isSbb x y c = (carryOut isSbb x y ||
      carryOut isSbb (if isSbb then x - y else x + y) (Bits.carryIn size.bitWidth c)) := by
  have hp := size.bitWidth_pos
  cases isSbb
  case false =>
    simp only [adcSbbCarry, carryOut, Bool.false_eq_true, if_false, Bits.toNat_carryIn c hp]
    exact Bits.carry_eq_or x y c hp
  case true =>
    simp only [adcSbbCarry, carryOut, if_true, Bits.toNat_carryIn c hp]
    exact Bits.borrow_eq_or x y c hp

theorem or_bits (b c : Bool) : ((bit b).setWidth size.bitWidth ||| (bit c).setWidth size.bitWidth) =
    (bit (b || c)).setWidth size.bitWidth := by
  cases b <;> cases c <;> cases size <;> rfl

theorem word_bit (b : Bool) : ((bit b).setWidth size.bitWidth).setWidth 64 = bit b := by
  rw [setWidth_bit, word_flag]

theorem emitAdcSbbValue_evaluates (isSbb : Bool) (hl : Lookup Γ lhs (word x))
    (hr : Lookup Γ rhs (word y)) :
    Evaluates Γ cpu (emitAdcSbbValue isSbb lhs rhs size) fun res Δ c =>
      Δ = [(res, word (adcSbbResult isSbb x y (X86.carry cpu.regs)))] ∧
      c.regs = storeCarry cpu.regs (bit (adcSbbCarry isSbb x y (X86.carry cpu.regs))) := by
  have hres : (adcSbbOp isSbb).apply
      (((if isSbb then x - y else x + y).setWidth 64).setWidth size.bitWidth)
      ((bit (X86.carry cpu.regs)).setWidth size.bitWidth) =
        some (adcSbbResult isSbb x y (X86.carry cpu.regs)) := by
    rw [adcSbbOp_apply, setWidth_word, setWidth_bit]
    cases isSbb <;> rfl
  refine (loadCarry_computes.of_eq (congrArg Value.scalar (carry_and_one _))).bind fun cf => ?_
  refine (binOp_computes _ (adcSbbOp_apply isSbb x y)).bind fun t => ?_
  refine (writeFlags_updates (flagsOfBinop_adcSbbOp ..) hl.there.there hr.there.there).bind
    fun wf1 => ?_
  refine ((readCarryOut_computes wf1 isSbb).of_eq
    (congrArg (Value.scalar <| bit ·) (carryOut_eq ..))).bind fun c1 => ?_
  refine (binOp_computes_at _ hres).bind fun res => ?_
  refine (writeFlags_updates (flagsOfBinop_adcSbbOp ..) (.there (.there .here))
    (.there (.there (.there .here)))).bind fun wf2 => ?_
  refine ((readCarryOut_computes wf2 isSbb).of_eq
    (congrArg (Value.scalar <| bit ·) (carryOut_eq ..))).bind fun c2 => ?_
  refine ((binOp_computes_at .or (congrArg some (or_bits ..))).of_eq
    (congrArg Value.scalar (word_bit _))).bind fun newCf => ?_
  refine Updates.bind storeCarry_updates fun _ => ?_
  refine .pure (List.cons_subset.mpr ⟨?_, List.nil_subset _⟩) ⟨rfl, ?_⟩
  case refine_1 => simp
  case refine_2 => rw [adcSbbCarry_eq]; simp [setWidth_bit, Cpu.writeFlags, Cpu.persist, Bits.carryIn, X86.carry]

theorem msb_getLsbD (x : BitVec size.bitWidth) : x.getLsbD (size.bitWidth - 1) = x.msb :=
  BitVec.msb_eq_getLsbD_last x |>.symm

theorem signShift_mod :
    ((BitVec.ofNat 64 (size.bitWidth - 1)).setWidth size.bitWidth).toNat % 64 = size.bitWidth - 1 := by
  cases size <;> rfl

-- The word whose sign is OF.
def overflowWord (isSbb : Bool) {w : Nat} (x y r : BitVec w) : BitVec w :=
  if isSbb then (x ^^^ y) &&& (x ^^^ r) else (x ^^^ r) &&& (y ^^^ r)

theorem pushOverflowWord_computes (isSbb : Bool) (hl : Lookup Γ lhs (word x))
    (hr : Lookup Γ rhs (word y)) (h : Lookup Γ result (word r)) :
    Computes Γ cpu (pushOverflowWord isSbb lhs rhs result size) (word (overflowWord isSbb x y r)) := by
  cases isSbb
  case true =>
    refine (binOp_computes .xor rfl).bind fun lhsXorRhs => ?_
    refine (binOp_computes .xor rfl).bind fun lhsXorResult => ?_
    exact binOp_computes .and rfl
  case false =>
    refine (binOp_computes .xor rfl).bind fun lhsXorResult => ?_
    refine (binOp_computes .xor rfl).bind fun rhsXorResult => ?_
    exact binOp_computes .and rfl

theorem storeRflagsFromBits_leaves (hp : Lookup Γ pf (.scalar p)) (hq : Lookup Γ af (.scalar q))
    (hz : Lookup Γ zf (.scalar z)) (hs : Lookup Γ sf (.scalar s)) (ho : Lookup Γ of (.scalar o)) :
    Leaves Γ cpu (pushStmt (.storeRflagsFromBits (some pf) (some af) zf sf of))
      (storeRflagsFromBits cpu.regs (some p) (some q) z s o) := by
  have hu : Updates Γ cpu (pushStmt (.storeRflagsFromBits (some pf) (some af) zf sf of))
      (cpu.persist (storeRflagsFromBits cpu.regs (some p) (some q) z s o)) :=
    pushStmt_updates .none fun n s hk => by
      simp only [evalOp, Option.map_some, hk.vals hp, hk.vals hq, hk.vals hz, hk.vals hs, hk.vals ho]
  exact hu.mono fun _ _ _ ⟨hΔ, hc⟩ => ⟨hΔ, hc ▸ rfl⟩

theorem pushAdcSbbRflagsBits_leaves (isSbb : Bool) (hl : Lookup Γ lhs (word x))
    (hr : Lookup Γ rhs (word y)) (h : Lookup Γ result (word r)) :
    Leaves Γ cpu (pushAdcSbbRflagsBits isSbb lhs rhs result size)
      (storeRflagsFromBits cpu.regs (some (bit (X86.evenParity r)))
        (some (bit ((x ^^^ y ^^^ r).getLsbD 4))) (bit (r == 0)) (bit r.msb)
        (bit (overflowWord isSbb x y r).msb)) := by
  refine (constant_computes 0).bind fun zero => ?_
  refine (compare_yields .eq).bind fun zf => ?_
  refine (pushEvenParityLowByteRef_computes h.there.there).bind fun pf => ?_
  refine (pushAuxFlagRef_computes hl.there.there.there hr.there.there.there
    h.there.there.there).bind fun af => ?_
  refine (pushShiftedBitRef_computes h.there.there.there.there signShift_mod).bind fun sf => ?_
  refine (pushOverflowWord_computes isSbb hl.there.there.there.there.there
    hr.there.there.there.there.there h.there.there.there.there.there).bind fun word => ?_
  refine (pushShiftedBitRef_computes .here signShift_mod).bind fun of => ?_
  have hz : CondCode.eq.compare ((r.setWidth 64).setWidth size.bitWidth)
      (((0 : U64).setWidth size.bitWidth).setWidth 64 |>.setWidth size.bitWidth) = (r == 0) := by
    rw [setWidth_word, setWidth_word]
    simp [CondCode.compare]
  rw [hz, msb_getLsbD, msb_getLsbD]
  exact storeRflagsFromBits_leaves (.there (.there (.there (.there .here))))
    (.there (.there (.there .here))) (.there (.there (.there (.there (.there .here)))))
    (.there (.there .here)) .here

end AdcSbb

end Prisma.Decoder
