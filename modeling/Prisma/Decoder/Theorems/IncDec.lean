import Prisma.Decoder.Theorems.AluRegister

-- INC and DEC of a register of 16, 32 or 64 bits.

namespace Prisma

open Decoder X86 Emission Machine

open Rflags in
theorem storeRflagsFromFlags_preserve {regs : GuestRegs} {flags : Flags} {pf af : Option U64}
    (hc : isOne regs.cf = flags.c) (hr : regs.rflags.getLsbD 0 = flags.c) :
    storeRflagsFromFlags regs flags .preserve pf af =
      storeRflagsFromFlags regs flags .armCarry pf af := by
  have h : (storeRflagsFromFlags regs flags .preserve pf af).rflags =
      (storeRflagsFromFlags regs flags .armCarry pf af).rflags := by
    apply BitVec.eq_of_getLsbD_eq
    intro i hi
    simp only [storeRflagsFromFlags, getLsbD_setIf, BitVec.getLsbD_or, BitVec.getLsbD_and,
      BitVec.getLsbD_not, getLsbD_cf, hc]
    by_cases h0 : i = 0
    case pos => cases hf : flags.c <;> simp_all
    case neg => simp [h0]
  simp only [storeRflagsFromFlags] at h ⊢
  rw [h]

namespace X86

-- INC is number 0 and DEC number 1 of the group.
def incDec (number : BitVec 3) : Option Alu :=
  match number with
  | 0 => some .add
  | 1 => some .sub
  | _ => none

-- The flags of adding or subtracting one, where CF stays as it was.
def incDecFlags (kind : Alu) {w : Nat} (x : BitVec w) (cf : Bool) : StatusFlags :=
  { kind.flags x 1 false with cf }

end X86

namespace Decoder

variable {bytes : List U8} {offset cursor : Nat} {prefixes : PrefixSet} {modrm : ModRm}
  {size : OpSize} {cpu : Cpu} {regs : GuestRegs} {insn : Instruction} {b : U8} {pc : U64}

section Emitted

variable {Γ : Facts} {lhs rhs : Ref} {op : BinOpKind} {flags : Flags} {x y r : BitVec size.bitWidth}
  (hop : op = .add ∨ op = .sub)
  (hf : flagsOfBinop op (x.setWidth 64) (y.setWidth 64) size = some flags)

include hop hf

theorem aluFlagsPreserveCarry_updates (hl : Lookup Γ lhs (word x)) (hr : Lookup Γ rhs (word y)) :
    Updates Γ cpu (pushStmt (.aluFlagsPreserveCarry op lhs rhs size))
      (cpu.writeFlags { flags with c := Rflags.isOne cpu.regs.cf }) :=
  pushStmt_updates .none fun n s hk => by
    cases hop with
    | inl h => subst h; cases hf; simp only [evalOp, hk.vals hl, hk.vals hr]; rfl
    | inr h => subst h; cases hf; simp only [evalOp, hk.vals hl, hk.vals hr]; rfl

theorem emitAluFlagsPreserveCarry_leaves (ha : op.apply x y = some r) (hl : Lookup Γ lhs (word x))
    (hr : Lookup Γ rhs (word y)) :
    Leaves Γ cpu (emitAluFlagsPreserveCarry op lhs rhs size)
      (storeRflagsFromFlags cpu.regs { flags with c := Rflags.isOne cpu.regs.cf } .preserve
        (some (bit (evenParity r))) (auxValue op x y r)) := by
  refine (binOp_computes _ ha).bind fun result => ?_
  refine (pushPfAfForAlu_evaluates _ hl.there hr.there .here).bind fun p Δ c ⟨hc, hp⟩ => ?_
  subst hc
  refine (aluFlagsPreserveCarry_updates hop hf (Lookup.append Δ hl.there)
    (Lookup.append Δ hr.there)).bind fun _ => ?_
  refine (storeRflagsFromNzcv_updates fun env hh =>
    hp env fun q hq => hh q (List.mem_append_left _ hq)).mono fun _ _ _ ⟨hΔ, hc⟩ => ⟨hΔ, ?_⟩
  rw [hc]
  rfl

end Emitted

-- The result is stored, with RFLAGS bit by bit.
def IncDecDone (regs regs' : GuestRegs) (kind : Alu) (dst : Gpr) (size : OpSize) : Prop :=
  let x := readGpr regs dst size
  regs'.gpr = (writeGpr regs dst (kind.result x 1 false)).gpr ∧ regs'.xmm = regs.xmm ∧
    ∀ i, regs'.rflags.getLsbD i =
      (((incDecFlags kind x (regs.rflags.getLsbD 0)).bit i).getD (regs.rflags.getLsbD i) || i = 1)

theorem emitIncDec_evaluates {kind : Alu} {op : BinOpKind} (h : OpOf kind op)
    (hop : op = .add ∨ op = .sub) (hmod : modrm.mod = 3)
    (hc : regs.cf.getLsbD 0 = regs.rflags.getLsbD 0) :
    Evaluates [] (.entry regs) (emitIncDec prefixes bytes cursor modrm op size) fun _ _ cpu =>
      IncDecDone regs cpu.regs kind (register prefixes.rex.b modrm.rm) size := by
  have h1 : word ((1 : U64).setWidth size.bitWidth) = word (1 : BitVec size.bitWidth) := by
    cases size <;> rfl
  have ⟨mode, flags, _, _, hf, ha, hp⟩ :=
    h.published (readGpr regs (register prefixes.rex.b modrm.rm) size) 1 false
  refine ((constant_computes 1).of_eq h1).bind fun one => ?_
  rw [rmOperand_register hmod, pure_bind]
  refine (loadReg_computes _).bind fun value => ?_
  refine (binOp_computes _ ha).bind fun result => ?_
  refine (storeReg_updates _).bind fun _ => ?_
  rw [storeReg_word]
  refine (emitAluFlagsPreserveCarry_leaves hop hf ha (.there .here) (.there (.there .here))).bind
    fun _ c hregs => ?_
  rw [← Rflags.isOne_eq] at hc
  refine .pure (List.nil_subset _) ?_
  rw [hregs, storeRflagsFromFlags_preserve rfl hc.symm]
  refine ⟨rfl, rfl, fun i => ?_⟩
  have hne : RflagsCarryMode.armCarry ≠ .preserve := nofun
  rw [getLsbD_storeRflagsFromFlags hne, incDecFlags, ← hp, ← hc]
  rfl

theorem decodeGroup5_incDec (hm : parseModrm bytes (cursor + 1) = .ok modrm) (hmod : modrm.mod = 3)
    (hk : incDec modrm.reg = some kind) (hc : regs.cf.getLsbD 0 = regs.rflags.getLsbD 0) :
    Evaluates [] (.entry regs) (decodeGroup5 prefixes bytes cursor pc) fun _ _ cpu =>
      IncDecDone regs cpu.regs kind (register prefixes.rex.b modrm.rm) (operandSize prefixes) := by
  refine .bind_lift hm ?_
  unfold incDec at hk
  split at hk
  case h_1 h0 => cases hk; rw [h0]; exact emitIncDec_evaluates .add (.inl rfl) hmod hc
  case h_2 h1 => cases hk; rw [h1]; exact emitIncDec_evaluates .sub (.inr rfl) hmod hc
  case h_3 => cases hk

-- One is added or subtracted at the operand size, and all flags but CF are those of x86.
theorem decodeOneAt_incDec_correct {kind : Alu} (hi : instructionAt bytes offset = some insn)
    (ho : insn.opcode = 0xFF) (hb : bytes[insn.cursor + 1]? = some b)
    (hmod : (ModRm.ofByte b).mod = 3) (hk : incDec (ModRm.ofByte b).reg = some kind)
    (pc : U64) (regs : GuestRegs) (hr : regs.rflags.getLsbD 1 = true)
    (hc : regs.cf.getLsbD 0 = regs.rflags.getLsbD 0) :
    let dst := register insn.prefixes.rex.b (ModRm.ofByte b).rm
    let x := readGpr regs dst (wordSize insn.prefixes)
    let flags := incDecFlags kind x (regs.rflags.getLsbD 0)
    ∃ d regs', decodeOneAt bytes offset pc = .ok d ∧
      interpretBlock d.stmts regs = some (.fallthrough, regs') ∧
      regs'.gpr = (writeGpr regs dst (kind.result x 1 false)).gpr ∧ regs'.xmm = regs.xmm ∧
      flags.SetIn regs'.rflags ∧ flags.KeepOthers regs.rflags regs'.rflags := by
  rw [wordSize_eq]
  have hd : decodeInstruction insn bytes offset pc = decodeGroup5 insn.prefixes bytes insn.cursor
      (pc + BitVec.ofNat 64 (insn.cursor - offset)) := by
    rw [decodeInstruction, ho]
    rfl
  have he : Evaluates [] (.entry regs) (decodeInstruction insn bytes offset pc) fun _ _ cpu =>
      IncDecDone regs cpu.regs kind _ (operandSize insn.prefixes) :=
    hd ▸ decodeGroup5_incDec (parseModrm_eq_ok.mpr ⟨b, hb, rfl⟩) hmod hk hc
  obtain ⟨d, _, _, cpu, hd, hrun, hg, hx, hf⟩ := he.instruction hi
  exact ⟨d, cpu.regs, hd, hrun, hg, hx, StatusFlags.setIn_of_getLsbD hf,
    StatusFlags.keepOthers_of_getLsbD hf hr⟩

-- `inc ax` at the largest signed number, with CF set.
theorem decodeOneAt_incDec_correct_inc :
    ∃ d regs', decodeOneAt [0x66, 0xFF, 0xC0] 0 0x1000 = .ok d ∧
      interpretBlock d.stmts { GuestRegs.default with gpr := fun _ => 0x17FFF, cf := 1, rflags := 3 } =
        some (.fallthrough, regs') ∧
      regs'.gpr .rax = 0x18000 ∧ regs'.rflags.getLsbD 11 = true ∧ regs'.rflags.getLsbD 0 = true := by
  have hi : instructionAt [0x66, 0xFF, 0xC0] 0 = some ⟨{ operandOverride := true }, 1, 0xFF⟩ := rfl
  have ⟨d, regs', hd, hi, hg, _, hf, _⟩ := decodeOneAt_incDec_correct (b := 0xC0) hi rfl rfl
    (by decide) rfl 0x1000 { GuestRegs.default with gpr := fun _ => 0x17FFF, cf := 1, rflags := 3 }
    rfl rfl
  refine ⟨d, regs', hd, hi, ?_, hf 11 _ rfl, hf 0 _ rfl⟩
  rw [hg]
  rfl

end Decoder

end Prisma
