import Prisma.Decoder.Theorems.MulDiv

-- MUL, IMUL, DIV and IDIV of a register do what x86 says, except for quotients beyond 64 bits.

namespace Prisma.Decoder

open Emission Machine X86

variable {bytes : List U8} {offset : Nat} {pc : U64} {regs : GuestRegs} {form : MulDivForm}
  {insn : Instruction} {modrm : ModRm}

section Dispatch

theorem mulDivSize_eq_some (h : mulDivSize insn modrm = some size) :
    (insn.opcode = 0xF6 ∨ insn.opcode = 0xF7) ∧ size = group3Size insn.prefixes insn.opcode := by
  unfold mulDivSize at h
  split at h
  case h_1 ho =>
    split at h
    case isTrue => cases h; exact ⟨.inl ho, (if_pos ho).symm⟩
    case isFalse => cases h
  case h_2 ho =>
    cases h
    rw [wordSize_eq]
    exact ⟨.inr ho, (if_neg (by rw [ho]; decide)).symm⟩
  case h_3 => cases h

theorem mulDivFormAt_eq_some (h : mulDivFormAt bytes offset = some form) :
    ∃ insn modrm, instructionAt bytes offset = some insn ∧
      parseModrm bytes (insn.cursor + 1) = .ok modrm ∧ modrm.mod = 3 ∧
      (insn.opcode = 0xF6 ∨ insn.opcode = 0xF7) ∧ modrm.reg.getLsbD 2 = true ∧
      form = ⟨modrm.reg.getLsbD 1, modrm.reg.getLsbD 0, register insn.prefixes.rex.b modrm.rm,
        group3Size insn.prefixes insn.opcode⟩ := by
  simp only [mulDivFormAt, Option.bind_eq_bind, Option.bind_eq_some_iff, Option.map_eq_map,
    Option.map_eq_some_iff] at h
  have ⟨insn, hi, modrm, ⟨b, hb, hm⟩, size, hs, h⟩ := h
  have ⟨ho, hs⟩ := mulDivSize_eq_some hs
  split at h
  case isFalse => cases h
  case isTrue hc =>
    cases h
    refine ⟨insn, modrm, hi, ?_, hc.left, ho, hc.right, by rw [hs]⟩
    rw [parseModrm, byteAt_eq_ok.mpr hb, ← hm]
    rfl

theorem decodeInstruction_group3 (h : insn.opcode = 0xF6 ∨ insn.opcode = 0xF7) :
    decodeInstruction insn bytes offset pc =
      decodeGroup3 insn.prefixes insn.opcode bytes insn.cursor := by
  obtain ⟨prefixes, cursor, opcode⟩ := insn
  cases h with
  | inl h => cases h; rfl
  | inr h => cases h; rfl

theorem upper_number {n : BitVec 3} (h : n.getLsbD 2 = true) : n = 4 ∨ n = 5 ∨ n = 6 ∨ n = 7 := by
  revert n
  decide

-- The decoder behind the operands.
def emitPair (form : MulDivForm) (raxRef rhsRef : Ref) : Emit Unit :=
  if form.divides then emitDivIdivPair raxRef rhsRef form.size form.signed
  else emitMulImulPair raxRef rhsRef form.size form.signed

theorem decodeGroup3_mulDiv {prefixes : PrefixSet} (hm : parseModrm bytes (cursor + 1) = .ok modrm)
    (hmod : modrm.mod = 3) (h : modrm.reg.getLsbD 2 = true)
    (hf : form = ⟨modrm.reg.getLsbD 1, modrm.reg.getLsbD 0, register prefixes.rex.b modrm.rm,
      group3Size prefixes opcode⟩) :
    decodeGroup3 prefixes opcode bytes cursor = do
      let raxRef ← pushRef (.loadReg .rax form.size)
      let rhsRef ← pushRef (.loadReg form.src form.size)
      emitPair form raxRef rhsRef
      return 2 := by
  subst hf
  have hd : decodeGroup3 prefixes opcode bytes cursor =
      decodeGroup3MulDiv prefixes bytes cursor modrm (group3Size prefixes opcode) := by
    rw [decodeGroup3, hm]
    obtain ⟨mod, reg, rm⟩ := modrm
    rcases upper_number h with h | h | h | h <;> cases h <;> rfl
  have he (raxRef rhsRef : Ref) (size : OpSize) : emitMulDiv modrm.reg raxRef rhsRef size =
      emitPair ⟨modrm.reg.getLsbD 1, modrm.reg.getLsbD 0, register prefixes.rex.b modrm.rm, size⟩
        raxRef rhsRef := by
    rcases upper_number h with h | h | h | h <;> rw [h] <;> rfl
  simp only [hd, decodeGroup3MulDiv, loadRm_register hmod, he, bind_assoc, pure_bind]

end Dispatch

section Operands

variable {regs' : GuestRegs} {o : Option (BlockOutcome × GuestRegs)}

-- The values of the operands.
abbrev operands (form : MulDivForm) (regs : GuestRegs) (rax rhs : Ref) : Facts :=
  [(rhs, word (readGpr regs form.src form.size)), (rax, word (readGpr regs .rax form.size))]

theorem decodeOneAt_of_leaves (h : mulDivFormAt bytes offset = some form)
    (he : ∀ rax rhs, Leaves (operands form regs rax rhs) (.entry regs) (emitPair form rax rhs) regs') :
    ∃ d, decodeOneAt bytes offset pc = .ok d ∧
      interpretBlock d.stmts regs = some (.fallthrough, regs') := by
  have ⟨insn, modrm, hi, hm, hmod, ho, hreg, hf⟩ := mulDivFormAt_eq_some h
  have he : Leaves [] (.entry regs) (decodeInstruction insn bytes offset pc) regs' := by
    rw [decodeInstruction_group3 ho, decodeGroup3_mulDiv hm hmod hreg hf]
    refine (loadReg_computes .rax).bind fun rax => ?_
    refine (loadReg_computes form.src).bind fun rhs => ?_
    refine (he rax rhs).bind fun _ cpu hc => ?_
    exact .pure (List.nil_subset _) ⟨rfl, hc⟩
  exact he.instruction hi

theorem decodeOneAt_of_stops (h : mulDivFormAt bytes offset = some form)
    (he : ∀ rax rhs, Stops (operands form regs rax rhs) (.entry regs) (emitPair form rax rhs) o) :
    ∃ d, decodeOneAt bytes offset pc = .ok d ∧ interpretBlock d.stmts regs = o := by
  have ⟨insn, modrm, hi, hm, hmod, ho, hreg, hf⟩ := mulDivFormAt_eq_some h
  have he : Stops [] (.entry regs) (decodeInstruction insn bytes offset pc) o := by
    rw [decodeInstruction_group3 ho, decodeGroup3_mulDiv hm hmod hreg hf]
    refine (loadReg_computes .rax).stops fun rax => ?_
    refine (loadReg_computes form.src).stops fun rhs => ?_
    exact (he rax rhs).bind
  exact he.instruction hi

end Operands

section Main

-- MUL and IMUL leave the two halves of the product in RAX and RDX.
theorem decodeOneAt_mul_correct (h : mulDivFormAt bytes offset = some form)
    (hd : form.divides = false) (h8 : form.size ≠ .i8) (pc : U64) (regs : GuestRegs) :
    ∃ d regs', decodeOneAt bytes offset pc = .ok d ∧
      interpretBlock d.stmts regs = some (.fallthrough, regs') ∧
      regs'.gpr = (form.multiplied regs).gpr := by
  have ⟨d, hd, hr⟩ := @decodeOneAt_of_leaves bytes offset pc regs form (form.multiplied regs) h
    fun rax rhs => by
      rw [emitPair, hd, if_neg Bool.false_ne_true]
      exact emitMulImulPair_leaves h8 form.signed (.there .here) .here
  exact ⟨d, _, hd, hr, rfl⟩

-- `imul rcx` of -1 and 2^63 - 1.
theorem decodeOneAt_mul_correct_imul :
    ∃ d regs', decodeOneAt [0x48, 0xF7, 0xE9] 0 0x1000 = .ok d ∧
      interpretBlock d.stmts { GuestRegs.default with
        gpr := fun r => if r = .rcx then 0x7FFFFFFFFFFFFFFF else 0xFFFFFFFFFFFFFFFF } =
          some (.fallthrough, regs') ∧
      regs'.gpr .rax = 0x8000000000000001 ∧ regs'.gpr .rdx = 0xFFFFFFFFFFFFFFFF := by
  have hform : mulDivFormAt [0x48, 0xF7, 0xE9] 0 = some ⟨false, true, .rcx, .i64⟩ := rfl
  have ⟨d, regs', hd, hi, hg⟩ := decodeOneAt_mul_correct hform rfl nofun 0x1000
    { GuestRegs.default with
      gpr := fun r => if r = .rcx then 0x7FFFFFFFFFFFFFFF else 0xFFFFFFFFFFFFFFFF }
  refine ⟨d, regs', hd, hi, ?_⟩
  rw [hg]
  decide

-- DIV and IDIV of 8, 16 and 32 bits fault as they should, and leave quotient and remainder.
theorem decodeOneAt_div_correct (h : mulDivFormAt bytes offset = some form)
    (hd : form.divides = true) (h64 : form.size ≠ .i64) (pc : U64) (regs : GuestRegs) :
    ∃ d, decodeOneAt bytes offset pc = .ok d ∧
      interpretBlock d.stmts regs = some (form.outcome regs) := by
  by_cases hf : form.Faults regs
  case pos =>
    rw [MulDivForm.outcome, if_pos hf]
    refine decodeOneAt_of_stops h fun rax rhs => ?_
    rw [emitPair, hd, if_pos rfl]
    exact emitDivIdivPair_stops h64 hf (.there .here) .here
  case neg =>
    rw [MulDivForm.outcome, if_neg hf]
    refine decodeOneAt_of_leaves h fun rax rhs => ?_
    rw [emitPair, hd, if_pos rfl]
    exact emitDivIdivPair_leaves h64 hf (.there .here) .here

-- `idiv cl` with -7 and 2, and with a quotient of 128.
theorem decodeOneAt_div_correct_idiv :
    (∃ d regs', decodeOneAt [0xF6, 0xF9] 0 0x1000 = .ok d ∧
      interpretBlock d.stmts { GuestRegs.default with
        gpr := fun r => if r = .rcx then 2 else 0xFFF9 } = some (.fallthrough, regs') ∧
      regs'.gpr .rax = 0xFFFD) ∧
    ∃ d regs', decodeOneAt [0xF6, 0xF9] 0 0x1000 = .ok d ∧
      interpretBlock d.stmts { GuestRegs.default with
        gpr := fun r => if r = .rcx then 1 else 128 } = some (.trap .sigfpe, regs') := by
  have hform : mulDivFormAt [0xF6, 0xF9] 0 = some ⟨true, true, .rcx, .i8⟩ := rfl
  have ⟨d, hd, hi⟩ := decodeOneAt_div_correct hform rfl nofun 0x1000 { GuestRegs.default with
    gpr := fun r => if r = .rcx then 2 else 0xFFF9 }
  have ⟨d', hd', hi'⟩ := decodeOneAt_div_correct hform rfl nofun 0x1000 { GuestRegs.default with
    gpr := fun r => if r = .rcx then 1 else 128 }
  exact ⟨⟨d, _, hd, hi, by decide⟩, ⟨d', _, hd', hi'⟩⟩

theorem unsupportedDiv_ne_outcome (hf : form.Faults regs) :
    unsupportedDiv isSigned a b c regs ≠ some (form.outcome regs) := by
  rw [MulDivForm.outcome, if_pos hf, unsupportedDiv]
  cases evalWideDiv a b c isSigned .quotient <;> simp

-- DIV and IDIV of 64 bits do what they should exactly if the divisor is zero or the quotient fits.
theorem decodeOneAt_wideDiv_iff (h : mulDivFormAt bytes offset = some form)
    (hd : form.divides = true) (hs : form.size = .i64) (pc : U64) (regs : GuestRegs) :
    (∃ d, decodeOneAt bytes offset pc = .ok d ∧
      interpretBlock d.stmts regs = some (form.outcome regs)) ↔
        form.divisor regs = 0 ∨ Fits form.signed 64 (form.quotient regs) := by
  have he (rax rhs : Ref) : emitPair form rax rhs = emitWideDivPair rax rhs form.signed := by
    rw [emitPair, hd, if_pos rfl, emitDivIdivPair, if_pos hs]
  by_cases hz : form.divisor regs = 0
  case pos =>
    simp only [hz, true_or, iff_true]
    rw [MulDivForm.outcome, if_pos (.inl hz)]
    refine decodeOneAt_of_stops h fun rax rhs => ?_
    rw [he]
    exact emitWideDivPair_stops_zero hs (.there .here) .here hz
  case neg =>
    by_cases hf : Fits form.signed 64 (form.quotient regs)
    case pos =>
      have hn : ¬form.Faults regs := not_or.mpr ⟨hz, by rw [hs]; exact not_not.mpr hf⟩
      simp only [hf, or_true, iff_true]
      rw [MulDivForm.outcome, if_neg hn]
      refine decodeOneAt_of_leaves h fun rax rhs => ?_
      rw [he]
      exact emitWideDivPair_leaves hs (.there .here) .here hz hf
    case neg =>
      have hn : form.Faults regs := .inr (by rw [hs]; exact hf)
      have hstops (rax rhs : Ref) : Stops (operands form regs rax rhs) (.entry regs)
          (emitPair form rax rhs) (unsupportedDiv form.signed (regs.gpr .rdx) (regs.gpr .rax)
            (regs.gpr form.src) regs) := by
        rw [he]
        exact emitWideDivPair_stops hs (.there .here) .here hz hf
      obtain ⟨d, hd, hr⟩ := @decodeOneAt_of_stops bytes offset pc regs form _ h hstops
      simp only [hz, hf, or_false, iff_false]
      rintro ⟨d', hd', hr'⟩
      cases hd.symm.trans hd'
      exact unsupportedDiv_ne_outcome hn (hr.symm.trans hr')

-- `div rcx` with 2^64 + 5 and 7.
theorem decodeOneAt_wideDiv_iff_div :
    ∃ d regs', decodeOneAt [0x48, 0xF7, 0xF1] 0 0x1000 = .ok d ∧
      interpretBlock d.stmts { GuestRegs.default with
        gpr := fun r => if r = .rcx then 7 else if r = .rdx then 1 else 5 } =
          some (.fallthrough, regs') ∧
      regs'.gpr .rax = 0x2492492492492493 ∧ regs'.gpr .rdx = 0 := by
  have hform : mulDivFormAt [0x48, 0xF7, 0xF1] 0 = some ⟨true, false, .rcx, .i64⟩ := rfl
  have ⟨d, hd, hi⟩ := (decodeOneAt_wideDiv_iff hform rfl rfl 0x1000 { GuestRegs.default with
    gpr := fun r => if r = .rcx then 7 else if r = .rdx then 1 else 5 }).mpr (.inr (by decide))
  exact ⟨d, _, hd, hi, by decide⟩

-- `div rcx` with 2^64 and 1.
theorem decodeOneAt_not_wideDiv :
    ¬∀ (bytes : List U8) (offset : Nat) (form : MulDivForm) (pc : U64) (regs : GuestRegs),
      mulDivFormAt bytes offset = some form → form.divides = true → form.size = .i64 →
      ∃ d, decodeOneAt bytes offset pc = .ok d ∧
        interpretBlock d.stmts regs = some (form.outcome regs) := by
  intro h
  have ⟨d, hd, hr⟩ := h [0x48, 0xF7, 0xF1] 0 ⟨true, false, .rcx, .i64⟩ 0x1000
    { GuestRegs.default with gpr := fun r => if r = .rcx ∨ r = .rdx then 1 else 0 } rfl rfl rfl
  cases hd
  have hr := congrArg (Option.map Prod.fst) hr
  revert hr
  decide

end Main

end Prisma.Decoder
