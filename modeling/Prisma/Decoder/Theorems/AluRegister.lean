import Prisma.Decoder.Theorems.Alu

-- ADD, OR, ADC, SBB, AND, SUB, XOR and CMP of two registers do what x86 says.

namespace Prisma

open Decoder X86 Emission Machine

namespace X86.AluForm

-- What the instruction does to the registers. The carry that the next ADC or SBB takes is CF, and the
-- bits of RFLAGS without a flag stay as they are, where the reserved bit is one.
structure Does (form : AluForm) (regs regs' : GuestRegs) : Prop where
  gpr : regs'.gpr = (form.written regs).gpr
  xmm : regs'.xmm = regs.xmm
  flags : (form.flags regs).SetIn regs'.rflags
  carry : X86.carry regs' = (form.flags regs).cf
  others : regs.rflags.getLsbD 1 = true → (form.flags regs).KeepOthers regs.rflags regs'.rflags

end X86.AluForm

namespace Decoder

variable {prefixes : PrefixSet} {bytes : List U8} {cursor offset : Nat} {opcode : U8} {cpu : Cpu}
  {modrm : ModRm} {pc : U64} {regs : GuestRegs}

section Effects

variable {form : AluForm}

theorem does_of_getLsbD {regs' : GuestRegs} (hg : regs'.gpr = (form.written regs).gpr)
    (hx : regs'.xmm = regs.xmm) (hc : carry regs' = regs'.rflags.getLsbD 0)
    (hf : ∀ i, regs'.rflags.getLsbD i =
      (((form.flags regs).bit i).getD (regs.rflags.getLsbD i) || i = 1)) : form.Does regs regs' :=
  ⟨hg, hx, StatusFlags.setIn_of_getLsbD hf,
    hc.trans (StatusFlags.setIn_of_getLsbD hf 0 _ rfl), StatusFlags.keepOthers_of_getLsbD hf⟩

theorem storeRflagsFromFlags_does {flags : Flags} {carry : RflagsCarryMode} {pf : U64}
    {af : Option U64} {regs₁ : GuestRegs} (hg : regs₁.gpr = (form.written regs).gpr)
    (hx : regs₁.xmm = regs.xmm) (hr : regs₁.rflags = regs.rflags) (hc : carry ≠ .preserve)
    (hp : publishedFlags flags carry pf af = form.flags regs) :
    form.Does regs (storeRflagsFromFlags regs₁ flags carry (some pf) af) :=
  does_of_getLsbD hg hx (by simp [X86.carry, storeRflagsFromFlags]) fun i => by
    rw [getLsbD_storeRflagsFromFlags hc, hp, hr]

end Effects

section AdcSbb

variable {size : OpSize} {dst src : Gpr} {isSbb : Bool}

-- The registers behind ADC or SBB.
def storedAdcSbb (isSbb : Bool) (dst : Gpr) {size : OpSize} (x y r : BitVec size.bitWidth)
    (regs : GuestRegs) : GuestRegs :=
  storeRflagsFromBits
    (writeGpr (storeCarry regs (bit (adcSbbCarry isSbb x y (carry regs)))) dst r)
    (some (bit (evenParity r))) (some (bit ((x ^^^ y ^^^ r).getLsbD 4))) (bit (r == 0)) (bit r.msb)
    (bit (overflowWord isSbb x y r).msb)

section Forms

variable (hm : parseModrm bytes (cursor + 1) = .ok modrm) (hmod : modrm.mod = 3)

include hm hmod

theorem decodeAdcSbbRmR_leaves (hdst : register prefixes.rex.b modrm.rm = dst)
    (hsrc : register prefixes.rex.r modrm.reg = src) :
    Leaves [] cpu (decodeAdcSbbRmR prefixes bytes cursor isSbb size)
      (storedAdcSbb isSbb dst (readGpr cpu.regs dst size) (readGpr cpu.regs src size)
        (adcSbbResult isSbb (readGpr cpu.regs dst size) (readGpr cpu.regs src size) (carry cpu.regs))
        cpu.regs) := by
  refine .bind_lift hm ?_
  rw [mapReg_eq, if_pos rfl, hsrc, rmOperand_register hmod, hdst]
  refine (loadReg_computes src).bind fun rhs => ?_
  rw [pure_bind]
  refine (loadReg_computes dst).bind fun lhs => ?_
  refine (emitAdcSbbValue_evaluates isSbb .here (.there .here)).bind fun res Δ c ⟨hΔ, hc⟩ => ?_
  subst hΔ
  refine (storeReg_updates dst).bind fun _ => ?_
  rw [storeReg_word, hc]
  refine (pushAdcSbbRflagsBits_leaves isSbb (.there .here) (.there (.there .here)) .here).bind
    fun _ c hc => ?_
  exact .pure (List.nil_subset _) ⟨rfl, hc⟩

theorem decodeAdcSbbRRm_leaves (hdst : register prefixes.rex.r modrm.reg = dst)
    (hsrc : register prefixes.rex.b modrm.rm = src) :
    Leaves [] cpu (decodeAdcSbbRRm prefixes bytes cursor isSbb size)
      (storedAdcSbb isSbb dst (readGpr cpu.regs dst size) (readGpr cpu.regs src size)
        (adcSbbResult isSbb (readGpr cpu.regs dst size) (readGpr cpu.regs src size) (carry cpu.regs))
        cpu.regs) := by
  refine .bind_lift hm ?_
  simp only [mapReg_eq, if_pos, hdst, loadRm_register hmod, hsrc, bind_assoc, pure_bind, emitAdcSbb]
  refine (loadReg_computes dst).bind fun lhs => ?_
  refine (loadReg_computes src).bind fun rhs => ?_
  refine (emitAdcSbbValue_evaluates isSbb (.there .here) .here).bind fun res Δ c ⟨hΔ, hc⟩ => ?_
  subst hΔ
  refine (storeReg_updates dst).bind fun _ => ?_
  rw [storeReg_word, hc]
  refine (pushAdcSbbRflagsBits_leaves isSbb (.there (.there .here)) (.there .here) .here).bind
    fun _ c hc => ?_
  exact .pure (List.nil_subset _) ⟨rfl, hc⟩

end Forms

theorem publishedBits_adcSbb {regs₁ : GuestRegs} (x y : BitVec size.bitWidth)
    (hc : regs₁.cf = bit (adcSbbCarry isSbb x y c)) :
    publishedBits regs₁ (bit (evenParity (adcSbbResult isSbb x y c)))
        (some (bit ((x ^^^ y ^^^ adcSbbResult isSbb x y c).getLsbD 4)))
        (bit (adcSbbResult isSbb x y c == 0)) (bit (adcSbbResult isSbb x y c).msb)
        (bit (overflowWord isSbb x y (adcSbbResult isSbb x y c)).msb) =
      Alu.flags (if isSbb then .sbb else .adc) x y c := by
  have hp := size.bitWidth_pos
  cases isSbb
  case false =>
    have ho := Bits.msb_add_overflow x y c hp
    have ha := auxCarry x y c
    simp only [publishedBits, hc, isOne_bit, Option.map_some, adcSbbResult, overflowWord, adcSbbCarry,
      Bool.false_eq_true, if_false, ho, ha, Alu.flags, Alu.result]
    rfl
  case true =>
    have ho := Bits.msb_sub_overflow x y c hp
    have ha := auxBorrow x y c
    simp only [publishedBits, hc, isOne_bit, Option.map_some, adcSbbResult, overflowWord, adcSbbCarry,
      if_true, ho, ha, Alu.flags, Alu.result]
    rfl

theorem getLsbD_storeCarry (v : U64) (h0 : i ≠ 0) (h1 : i ≠ 1) :
    (storeCarry regs v).rflags.getLsbD i = regs.rflags.getLsbD i := by
  by_cases hi : i < 64
  case neg =>
    have hb : ∀ v : U64, v.getLsbD i = false := fun v => BitVec.getLsbD_of_ge v i (by omega)
    rw [hb, hb]
  case pos =>
    have hr := Rflags.getLsbD_reserved (i := i)
    simp only [storeCarry, BitVec.ofNat_eq_ofNat, BitVec.getLsbD_or, BitVec.getLsbD_and,
      BitVec.getLsbD_not, BitVec.getLsbD_one, hr, hi, h0, h1, Bool.and_true, Bool.or_false,
      decide_true, decide_false, Bool.not_false, Bool.and_false]

theorem storeCarry_cf (regs : GuestRegs) (b : Bool) : (storeCarry regs (bit b)).cf = bit b := by
  cases b <;> rfl

theorem storedAdcSbb_does (form : AluForm) (hk : form.kind = if isSbb then .sbb else .adc)
    (hr : adcSbbResult isSbb (form.lhs regs) (form.rhs regs) (carry regs) =
      form.kind.result (form.lhs regs) (form.rhs regs) (carry regs)) :
    form.Does regs (storedAdcSbb isSbb form.dst (form.lhs regs) (form.rhs regs)
      (adcSbbResult isSbb (form.lhs regs) (form.rhs regs) (carry regs)) regs) := by
  have hcmp : form.kind ≠ .cmp := by
    rw [hk]
    cases isSbb <;> decide
  have hc : (writeGpr (storeCarry regs
      (bit (adcSbbCarry isSbb (form.lhs regs) (form.rhs regs) (carry regs)))) form.dst
      (adcSbbResult isSbb (form.lhs regs) (form.rhs regs) (carry regs))).cf =
        bit (adcSbbCarry isSbb (form.lhs regs) (form.rhs regs) (carry regs)) :=
    storeCarry_cf regs _
  refine does_of_getLsbD ?_ rfl ?_ fun i => ?_
  case refine_1 =>
    rw [AluForm.written, if_neg hcmp, ← hr]
    rfl
  case refine_2 =>
    rw [storedAdcSbb, getLsbD_storeRflagsFromBits]
    simp [StatusFlags.bit, publishedBits, X86.carry, storeRflagsFromBits, Rflags.isOne_eq]
  case refine_3 =>
    rw [storedAdcSbb, getLsbD_storeRflagsFromBits, publishedBits_adcSbb _ _ hc, ← hk]
    cases hb : (Alu.flags form.kind (form.lhs regs) (form.rhs regs) (carry regs)).bit i with
    | some b => simp only [AluForm.flags, hb, Option.getD_some]
    | none =>
      have h0 : i ≠ 0 := by
        rintro rfl
        cases hb
      by_cases h1 : i = 1
      case pos => simp [h1]
      case neg =>
        simp only [AluForm.flags, hb, Option.getD_none]
        exact congrArg (· || _) (getLsbD_storeCarry _ h0 h1)

end AdcSbb

section Dispatch

-- The decoder for `op r/m, r` with operands of more than 8 bits.
def aluRmR (kind : Alu) (prefixes : PrefixSet) (bytes : List U8) (cursor : Nat) : Emit Nat :=
  match kind with
  | .add => decodeBinopRmR prefixes bytes cursor .add
  | .or => decodeBinopRmR prefixes bytes cursor .or
  | .adc => decodeAdcSbbRmR prefixes bytes cursor false (operandSize prefixes)
  | .sbb => decodeAdcSbbRmR prefixes bytes cursor true (operandSize prefixes)
  | .and => decodeBinopRmR prefixes bytes cursor .and
  | .sub => decodeBinopRmR prefixes bytes cursor .sub
  | .xor => decodeBinopRmR prefixes bytes cursor .xor
  | .cmp => decodeCmpRmR prefixes bytes cursor

-- The decoder for `op r, r/m` with operands of more than 8 bits.
def aluRRm (kind : Alu) (prefixes : PrefixSet) (bytes : List U8) (cursor : Nat) : Emit Nat :=
  match kind with
  | .add => decodeBinopRRm prefixes bytes cursor .add
  | .or => decodeBinopRRm prefixes bytes cursor .or
  | .adc => decodeAdcSbbRRm prefixes bytes cursor false (operandSize prefixes)
  | .sbb => decodeAdcSbbRRm prefixes bytes cursor true (operandSize prefixes)
  | .and => decodeBinopRRm prefixes bytes cursor .and
  | .sub => decodeBinopRRm prefixes bytes cursor .sub
  | .xor => decodeBinopRRm prefixes bytes cursor .xor
  | .cmp => decodeCmpRRmWithSize prefixes bytes cursor (operandSize prefixes)

theorem eq_of_extractLsb (opcode : U8) (h : opcode.extractLsb' 6 2 = 0) :
    opcode = (opcode.extractLsb' 3 3).setWidth 8 <<< 3 ||| (opcode.extractLsb' 0 3).setWidth 8 := by
  revert opcode
  decide +kernel

theorem decodeOneByteOpcode_alu (h : opcode.extractLsb' 6 2 = 0) :
    (opcode.extractLsb' 0 3 = 1 → decodeOneByteOpcode prefixes opcode bytes cursor pc =
      aluRmR (Alu.ofNumber (opcode.extractLsb' 3 3)) prefixes bytes cursor) ∧
    (opcode.extractLsb' 0 3 = 3 → decodeOneByteOpcode prefixes opcode bytes cursor pc =
      aluRRm (Alu.ofNumber (opcode.extractLsb' 3 3)) prefixes bytes cursor) := by
  have ho := eq_of_extractLsb opcode h
  constructor
  all_goals
    intro hl
    rw [hl] at ho
    generalize opcode.extractLsb' 3 3 = n at ho
    subst ho
    rcases numbers n with rfl | rfl | rfl | rfl | rfl | rfl | rfl | rfl <;> rfl

variable {kind : Alu}

-- The IR operation of the instructions that publish the flags of the operation itself.
inductive OpOf : Alu → BinOpKind → Prop
  | add : OpOf .add .add
  | or : OpOf .or .or
  | and : OpOf .and .and
  | sub : OpOf .sub .sub
  | xor : OpOf .xor .xor

theorem OpOf.published {size : OpSize} (h : OpOf kind op) (x y : BitVec size.bitWidth) (c : Bool) :
    ∃ mode flags, rflagsCarryModeForAlu op = some mode ∧ mode ≠ .preserve ∧
      flagsOfBinop op (x.setWidth 64) (y.setWidth 64) size = some flags ∧
      op.apply x y = some (kind.result x y c) ∧
      publishedFlags flags mode (bit (evenParity (kind.result x y c)))
        (auxValue op x y (kind.result x y c)) = kind.flags x y c := by
  cases h with
  | add => exact ⟨_, _, rfl, nofun, rfl, rfl, publishedFlags_add ..⟩
  | sub => exact ⟨_, _, rfl, nofun, rfl, rfl, publishedFlags_sub ..⟩
  | or | and | xor =>
    refine ⟨_, _, rfl, nofun, rfl, rfl, publishedFlags_logic _ ?_⟩
    simp only [BitVec.setWidth_or, BitVec.setWidth_and, BitVec.setWidth_xor, setWidth_word]
    rfl

theorem storedAlu_does (form : AluForm) (hcmp : form.kind ≠ .cmp) (hmode : mode ≠ .preserve)
    (hp : publishedFlags flags mode
      (bit (evenParity (form.kind.result (form.lhs regs) (form.rhs regs) (carry regs))))
      (auxValue op (form.lhs regs) (form.rhs regs)
        (form.kind.result (form.lhs regs) (form.rhs regs) (carry regs))) = form.flags regs) :
    form.Does regs
      (storedAlu op mode flags form.dst (form.lhs regs) (form.rhs regs)
        (form.kind.result (form.lhs regs) (form.rhs regs) (carry regs)) (.entry regs)).regs := by
  refine storeRflagsFromFlags_does ?_ rfl rfl hmode hp
  rw [AluForm.written, if_neg hcmp]
  rfl

theorem compared_does (form : AluForm) (hk : form.kind = .cmp) :
    form.Does regs (compared (form.lhs regs) (form.rhs regs) (.entry regs)).regs := by
  have hmode : RflagsCarryMode.invertArmCarry ≠ .preserve := by decide
  refine storeRflagsFromFlags_does ?_ rfl rfl hmode ?_
  case refine_1 => rw [AluForm.written, if_pos hk]
  case refine_2 => rw [AluForm.flags, hk]; exact publishedFlags_sub ..

theorem OpOf.ne_cmp (h : OpOf kind op) : kind ≠ .cmp := by
  cases h <;> nofun

section Register

variable (hm : parseModrm bytes (cursor + 1) = .ok modrm) (hmod : modrm.mod = 3)

include hm hmod

theorem decodeBinopRmR_does (h : OpOf kind op) :
    Evaluates [] (.entry regs) (decodeBinopRmR prefixes bytes cursor op) fun _ _ cpu =>
      AluForm.Does ⟨kind, register prefixes.rex.b modrm.rm, register prefixes.rex.r modrm.reg,
        operandSize prefixes⟩ regs cpu.regs := by
  have ⟨_, _, hc, hmode, hf, ha, hp⟩ := h.published
    (readGpr regs (register prefixes.rex.b modrm.rm) (operandSize prefixes))
    (readGpr regs (register prefixes.rex.r modrm.reg) (operandSize prefixes)) (carry regs)
  refine (decodeBinopRmRWithSize_updates (.entry regs) hm hmod hc ha hf rfl rfl).mono fun _ _ _ ⟨_, hc⟩ => ?_
  rw [hc]
  exact storedAlu_does ⟨kind, _, _, _⟩ h.ne_cmp hmode hp

theorem decodeBinopRRm_does (h : OpOf kind op) :
    Evaluates [] (.entry regs) (decodeBinopRRm prefixes bytes cursor op) fun _ _ cpu =>
      AluForm.Does ⟨kind, register prefixes.rex.r modrm.reg, register prefixes.rex.b modrm.rm,
        operandSize prefixes⟩ regs cpu.regs := by
  have ⟨_, _, hc, hmode, hf, ha, hp⟩ := h.published
    (readGpr regs (register prefixes.rex.r modrm.reg) (operandSize prefixes))
    (readGpr regs (register prefixes.rex.b modrm.rm) (operandSize prefixes)) (carry regs)
  refine (decodeBinopRRmWithSize_updates (.entry regs) hm hmod hc ha hf rfl rfl).mono fun _ _ _ ⟨_, hc⟩ => ?_
  rw [hc]
  exact storedAlu_does ⟨kind, _, _, _⟩ h.ne_cmp hmode hp

theorem aluRmR_does :
    Evaluates [] (.entry regs) (aluRmR kind prefixes bytes cursor) fun _ _ cpu =>
      AluForm.Does ⟨kind, register prefixes.rex.b modrm.rm, register prefixes.rex.r modrm.reg,
        operandSize prefixes⟩ regs cpu.regs := by
  cases kind
  case adc =>
    refine (decodeAdcSbbRmR_leaves hm hmod rfl rfl).mono fun _ _ _ ⟨_, hc⟩ => ?_
    exact hc ▸ storedAdcSbb_does ⟨.adc, _, _, _⟩ rfl rfl
  case sbb =>
    refine (decodeAdcSbbRmR_leaves hm hmod rfl rfl).mono fun _ _ _ ⟨_, hc⟩ => ?_
    exact hc ▸ storedAdcSbb_does ⟨.sbb, _, _, _⟩ rfl rfl
  case cmp =>
    refine (decodeCmpRmRWithSize_updates hm hmod rfl rfl).mono fun _ _ _ ⟨_, hc⟩ => ?_
    exact hc ▸ compared_does ⟨.cmp, _, _, _⟩ rfl
  all_goals exact decodeBinopRmR_does hm hmod (by constructor)

theorem aluRRm_does :
    Evaluates [] (.entry regs) (aluRRm kind prefixes bytes cursor) fun _ _ cpu =>
      AluForm.Does ⟨kind, register prefixes.rex.r modrm.reg, register prefixes.rex.b modrm.rm,
        operandSize prefixes⟩ regs cpu.regs := by
  cases kind
  case adc =>
    refine (decodeAdcSbbRRm_leaves hm hmod rfl rfl).mono fun _ _ _ ⟨_, hc⟩ => ?_
    exact hc ▸ storedAdcSbb_does ⟨.adc, _, _, _⟩ rfl rfl
  case sbb =>
    refine (decodeAdcSbbRRm_leaves hm hmod rfl rfl).mono fun _ _ _ ⟨_, hc⟩ => ?_
    exact hc ▸ storedAdcSbb_does ⟨.sbb, _, _, _⟩ rfl rfl
  case cmp =>
    refine (decodeCmpRRmWithSize_updates hm hmod rfl rfl).mono fun _ _ _ ⟨_, hc⟩ => ?_
    exact hc ▸ compared_does ⟨.cmp, _, _, _⟩ rfl
  all_goals exact decodeBinopRRm_does hm hmod (by constructor)

end Register

end Dispatch

section Main

variable {form : AluForm} {d : Decoded}

theorem aluFormAt_eq_some (h : aluFormAt bytes offset = some form) :
    ∃ insn modrm, instructionAt bytes offset = some insn ∧
      parseModrm bytes (insn.cursor + 1) = .ok modrm ∧ modrm.mod = 3 ∧
      insn.opcode.extractLsb' 6 2 = 0 ∧
      AluForm.ofOpcode insn.opcode (register insn.prefixes.rex.b modrm.rm)
        (register insn.prefixes.rex.r modrm.reg) (operandSize insn.prefixes) = some form := by
  simp only [aluFormAt, Option.bind_eq_bind, Option.bind_eq_some_iff, Option.map_eq_map,
    Option.map_eq_some_iff] at h
  have ⟨insn, hi, modrm, ⟨b, hb, hm⟩, h⟩ := h
  split at h
  case isFalse => cases h
  case isTrue hc =>
    refine ⟨insn, modrm, hi, ?_, hc.right, hc.left, wordSize_eq insn.prefixes ▸ h⟩
    rw [parseModrm, byteAt_eq_ok.mpr hb, ← hm]
    rfl

theorem decodeInstruction_does {insn : Instruction} (hm : parseModrm bytes (insn.cursor + 1) = .ok modrm)
    (hmod : modrm.mod = 3) (ho : insn.opcode.extractLsb' 6 2 = 0)
    (hf : AluForm.ofOpcode insn.opcode (register insn.prefixes.rex.b modrm.rm)
      (register insn.prefixes.rex.r modrm.reg) (operandSize insn.prefixes) = some form) :
    Evaluates [] (.entry regs) (decodeInstruction insn bytes offset pc) fun _ _ cpu =>
      form.Does regs cpu.regs := by
  unfold AluForm.ofOpcode at hf
  split at hf
  case h_1 hl =>
    cases hf
    rw [decodeInstruction, (decodeOneByteOpcode_alu ho).left hl]
    exact aluRmR_does hm hmod
  case h_2 hl =>
    cases hf
    rw [decodeInstruction, (decodeOneByteOpcode_alu ho).right hl]
    exact aluRRm_does hm hmod
  case h_3 => cases hf

theorem decodeOneAt_does (h : aluFormAt bytes offset = some form) (pc : U64) (regs : GuestRegs) :
    ∃ d regs', decodeOneAt bytes offset pc = .ok d ∧
      interpretBlock d.stmts regs = some (.fallthrough, regs') ∧ form.Does regs regs' := by
  have ⟨insn, modrm, hi, hm, hmod, ho, hf⟩ := aluFormAt_eq_some h
  have he : Evaluates [] (.entry regs) (decodeInstruction insn bytes offset pc) fun _ _ cpu =>
      form.Does regs cpu.regs :=
    decodeInstruction_does hm hmod ho hf
  have ⟨d, _, _, cpu, hd, hr, hq⟩ := he.instruction hi
  exact ⟨d, cpu.regs, hd, hr, hq⟩

-- The result is stored and the flags of x86 are published, whichever of the operations it is.
theorem decodeOneAt_alu_correct (h : aluFormAt bytes offset = some form) (pc : U64)
    (regs : GuestRegs) (hr : regs.rflags.getLsbD 1 = true) :
    ∃ d regs', decodeOneAt bytes offset pc = .ok d ∧
      interpretBlock d.stmts regs = some (.fallthrough, regs') ∧
      regs'.gpr = (form.written regs).gpr ∧ regs'.xmm = regs.xmm ∧
      (form.flags regs).SetIn regs'.rflags ∧
      (form.flags regs).KeepOthers regs.rflags regs'.rflags := by
  have ⟨d, regs', hd, hi, hf⟩ := decodeOneAt_does h pc regs
  exact ⟨d, regs', hd, hi, hf.gpr, hf.xmm, hf.flags, hf.others hr⟩

-- `add r8, r9` with a carry out of the register.
theorem decodeOneAt_alu_correct_add :
    ∃ d regs', decodeOneAt [0x4D, 0x01, 0xC8] 0 0x1000 = .ok d ∧
      interpretBlock d.stmts { GuestRegs.default with gpr := fun _ => 0x80000000000000FF } =
        some (.fallthrough, regs') ∧
      regs'.gpr .r8 = 0x1FE ∧ regs'.rflags.getLsbD 0 = true := by
  have hform : aluFormAt [0x4D, 0x01, 0xC8] 0 = some ⟨.add, .r8, .r9, .i64⟩ := rfl
  have ⟨d, regs', hd, hi, hg, _, hf, _⟩ := decodeOneAt_alu_correct hform 0x1000
    { GuestRegs.default with gpr := fun _ => 0x80000000000000FF } rfl
  refine ⟨d, regs', hd, hi, ?_, hf 0 _ rfl⟩
  rw [hg]
  rfl

-- ADC and SBB take the carry of the guest state and leave it for the next one.
theorem decodeOneAt_adcSbb_correct (h : aluFormAt bytes offset = some form)
    (hk : form.kind = .adc ∨ form.kind = .sbb) (pc : U64) (regs : GuestRegs) :
    ∃ d regs', decodeOneAt bytes offset pc = .ok d ∧
      interpretBlock d.stmts regs = some (.fallthrough, regs') ∧
      regs'.gpr = (writeGpr regs form.dst
        (form.kind.result (form.lhs regs) (form.rhs regs) (carry regs))).gpr ∧
      (form.flags regs).SetIn regs'.rflags ∧ carry regs' = (form.flags regs).cf := by
  have hcmp : form.kind ≠ .cmp := by
    cases hk with
    | inl hk => rw [hk]; decide
    | inr hk => rw [hk]; decide
  have ⟨d, regs', hd, hi, hf⟩ := decodeOneAt_does h pc regs
  have hg := hf.gpr
  rw [AluForm.written, if_neg hcmp] at hg
  exact ⟨d, regs', hd, hi, hg, hf.flags, hf.carry⟩

-- `sbb rcx, rax` with a borrow: 0 - 0 - 1.
theorem decodeOneAt_adcSbb_correct_sbb :
    ∃ d regs', decodeOneAt [0x48, 0x1B, 0xC8] 0 0x1000 = .ok d ∧
      interpretBlock d.stmts { GuestRegs.default with cf := 1 } = some (.fallthrough, regs') ∧
      regs'.gpr .rcx = 0xFFFFFFFFFFFFFFFF ∧ carry regs' = true := by
  have hform : aluFormAt [0x48, 0x1B, 0xC8] 0 = some ⟨.sbb, .rcx, .rax, .i64⟩ := rfl
  have ⟨d, regs', hd, hi, hg, _, hc⟩ := decodeOneAt_adcSbb_correct hform (.inr rfl) 0x1000
    { GuestRegs.default with cf := 1 }
  refine ⟨d, regs', hd, hi, ?_, hc⟩
  rw [hg]
  rfl

end Main

end Decoder

end Prisma
