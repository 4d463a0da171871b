import Mathlib.Tactic.IntervalCases
import Prisma.X86.Theorems.Operand
import Prisma.Decoder.Theorems.Alu

-- LAHF and SAHF.

namespace Prisma

open Decoder X86 Emission Machine BitVec

namespace X86

-- CF, PF, AF, ZF and SF at their places in a byte, where bit 1 is one and bits 3 and 5 are zero.
def flagsByte (rflags : U64) : U8 :=
  .ofBoolListLE [rflags.getLsbD 0, true, rflags.getLsbD 2, false, rflags.getLsbD 4, false,
    rflags.getLsbD 6, rflags.getLsbD 7]

-- The places of the five flags.
def byteFlags : List Nat := [0, 2, 4, 6, 7]

def ah : Operand := .highByte 0

-- LAHF changes AH only.
def lahf (regs : GuestRegs) : GuestRegs :=
  ah.write regs (flagsByte regs.rflags)

theorem getLsbD_flagsByte (rflags : U64) (hi : i < 8) :
    (flagsByte rflags).getLsbD i = if i ∈ byteFlags then rflags.getLsbD i else i = 1 := by
  rw [flagsByte, getLsbD_ofBoolListLE]
  interval_cases i <;> rfl

end X86

namespace Decoder

variable {bytes : List U8} {offset : Nat} {pc : U64} {regs : GuestRegs} {insn : Instruction}

theorem lahf_rax (old rflags : U64) :
    (old &&& ~~~0xFF00#64) ||| (((rflags ||| 2) &&& 0xD7) <<< 8) =
      Operand.writeHighByte old (flagsByte rflags) := by
  have hah : ∀ i < 64, (0xFF00#64).getLsbD i = decide (8 ≤ i ∧ i < 16) := by decide
  have hflags : ∀ i < 64, (0xD7#64).getLsbD i = decide (i ∈ byteFlags ∨ i = 1) := by decide
  have hlt : ∀ i, i ∈ byteFlags ∨ i = 1 → i < 8 := by simp [byteFlags]; omega
  apply eq_of_getLsbD_eq
  intro i hi
  rw [Operand.getLsbD_writeHighByte _ _ hi]
  simp only [getLsbD_or, getLsbD_and, getLsbD_not, getLsbD_shiftLeft,
    ofNat_eq_ofNat, Rflags.getLsbD_reserved, hah i hi, hflags (i - 8) (by omega), hi]
  by_cases h : 8 ≤ i ∧ i < 16
  case pos =>
    rw [if_pos h, getLsbD_flagsByte _ (by omega)]
    have : ¬i < 8 := by omega
    by_cases h1 : i - 8 = 1
    case pos => simp [h, h1, byteFlags, this]
    case neg => by_cases hm : i - 8 ∈ byteFlags <;> simp [h, h1, hm, this]
  case neg =>
    rw [if_neg h]
    by_cases hl : i < 8
    case pos => simp [h, hl]
    case neg => simp [h, mt (hlt (i - 8)) (by omega)]

theorem decodeLahf_leaves : Leaves [] (.entry regs) decodeLahf (lahf regs) := by
  refine loadRflags_computes.bind fun rflags => (constant64_computes _).bind fun lahfMask => ?_
  refine (binOp64_computes .and rfl).bind fun flagsByte => ?_
  refine (constant64_computes _).bind fun ahShift => (binOp64_computes .shl rfl).bind fun shifted => ?_
  refine (loadReg_computes .rax).bind fun rax => (constant64_computes _).bind fun clearAh => ?_
  refine (binOp64_computes .and rfl).bind fun raxWithoutAh => ?_
  refine (binOp64_computes .or rfl).bind fun newRax => ?_
  refine (storeReg_updates .rax).bind fun _ => .pure (List.nil_subset _) ⟨rfl, ?_⟩
  rw [storeReg_eq]
  exact congrArg (setGpr regs .rax) (lahf_rax ..)

-- RFLAGS behind SAHF.
def sahfImage (regs : GuestRegs) : U64 :=
  ((regs.rflags ||| 2) &&& ~~~0xD5#64) ||| ((regs.gpr .rax >>> 8) &&& 0xD5#64)

theorem decodeSahf_leaves :
    Leaves [] (.entry regs) decodeSahf (storeRflags regs (sahfImage regs)) := by
  refine (loadReg_computes .rax).bind fun rax => (constant64_computes _).bind fun ahShift => ?_
  refine (binOp64_computes .shr rfl).bind fun ah => (constant64_computes _).bind fun sahfMask => ?_
  refine (binOp64_computes .and rfl).bind fun flagsFromAh => ?_
  refine loadRflags_computes.bind fun rflags => (constant64_computes _).bind fun clearBits => ?_
  refine (binOp64_computes .and rfl).bind fun preserved => ?_
  refine (binOp64_computes .or rfl).bind fun newRflags => ?_
  exact storeRflags_updates.bind fun _ => .pure (List.nil_subset _) ⟨rfl, rfl⟩

theorem getLsbD_sahfImage (regs : GuestRegs) (hr : regs.rflags.getLsbD 1 = true) (i : Nat) :
    (sahfImage regs ||| 2).getLsbD i =
      if i ∈ byteFlags then (ah.read regs).getLsbD i else regs.rflags.getLsbD i := by
  have hah : (ah.read regs).getLsbD i = (decide (i < 8) && (regs.gpr .rax).getLsbD (8 + i)) :=
    getLsbD_extractLsb' ..
  have hlt : i ∈ byteFlags → i < 8 ∧ i ≠ 1 := by simp [byteFlags]; omega
  by_cases hi : i < 64
  case neg =>
    have hb : ∀ v : U64, v.getLsbD i = false := fun v => getLsbD_of_ge v i (by omega)
    rw [if_neg (mt hlt (by omega)), hb, hb]
  case pos =>
    have hflags : ∀ i < 64, (0xD5#64).getLsbD i = decide (i ∈ byteFlags) := by decide
    simp only [sahfImage, getLsbD_or, getLsbD_and, getLsbD_not,
      ofNat_eq_ofNat, Rflags.getLsbD_reserved, hflags i hi, hi, getLsbD_ushiftRight,
      hah]
    split
    case isTrue h => simp [h, hlt h]
    case isFalse h => by_cases h1 : i = 1 <;> simp [h, h1, hr]

theorem storeRflags_lahf (hr : regs.rflags.getLsbD 1 = true) (hc : regs.cf = regs.rflags &&& 1) :
    storeRflags (lahf regs) (sahfImage (lahf regs)) = lahf regs := by
  have hi : sahfImage (lahf regs) ||| 2 = regs.rflags := by
    apply eq_of_getLsbD_eq
    intro i hi
    have hlt : i ∈ byteFlags → i < 8 := by simp [byteFlags]; omega
    have hah : ah.read (lahf regs) = flagsByte regs.rflags := Operand.read_write_highByte ..
    rw [getLsbD_sahfImage (lahf regs) hr, hah]
    split
    case isTrue h => exact (getLsbD_flagsByte _ (hlt h)).trans (if_pos h)
    case isFalse => rfl
  rw [storeRflags, hi, ← hc]
  rfl

section Instruction

variable (pc : U64) (regs : GuestRegs)

theorem decodeInstruction_lahf (ho : insn.opcode = 0x9F) (hp : insn.prefixes.any = false) :
    Leaves [] (.entry regs) (decodeInstruction insn bytes offset pc) (lahf regs) := by
  rw [decodeInstruction, ho]
  exact .bind_lift (by rw [hp]; rfl) decodeLahf_leaves

theorem decodeInstruction_sahf (ho : insn.opcode = 0x9E) (hp : insn.prefixes.any = false) :
    Leaves [] (.entry regs) (decodeInstruction insn bytes offset pc)
      (storeRflags regs (sahfImage regs)) := by
  rw [decodeInstruction, ho]
  exact .bind_lift (by rw [hp]; rfl) decodeSahf_leaves

end Instruction

-- LAHF changes AH only, SAHF behind it changes nothing, and any SAHF changes only the five flags.
theorem decodeOneAt_lahf_sahf_correct {bytes' : List U8} {offset' : Nat} {insn' : Instruction}
    (hl : instructionAt bytes offset = some insn) (hlo : insn.opcode = 0x9F)
    (hlp : insn.prefixes.any = false) (hs : instructionAt bytes' offset' = some insn')
    (hso : insn'.opcode = 0x9E) (hsp : insn'.prefixes.any = false) (pc pc' : U64)
    (regs : GuestRegs) (hr : regs.rflags.getLsbD 1 = true) (hc : regs.cf = regs.rflags &&& 1) :
    ∃ l s, decodeOneAt bytes offset pc = .ok l ∧ decodeOneAt bytes' offset' pc' = .ok s ∧
      interpretBlock l.stmts regs = some (.fallthrough, lahf regs) ∧
      interpretBlock s.stmts (lahf regs) = some (.fallthrough, lahf regs) ∧
      ∃ regs', interpretBlock s.stmts regs = some (.fallthrough, regs') ∧
        regs'.gpr = regs.gpr ∧ regs'.xmm = regs.xmm ∧ ∀ i, regs'.rflags.getLsbD i =
          if i ∈ byteFlags then (ah.read regs).getLsbD i else regs.rflags.getLsbD i := by
  have ⟨l, hld, hlrun⟩ := (decodeInstruction_lahf pc regs hlo hlp).instruction hl
  have ⟨s, hsd, hsrun⟩ := (decodeInstruction_sahf pc' regs hso hsp).instruction hs
  have ⟨s', hsd', hback⟩ := (decodeInstruction_sahf pc' (lahf regs) hso hsp).instruction hs
  cases hsd.symm.trans hsd'
  rw [storeRflags_lahf hr hc] at hback
  exact ⟨l, s, hld, hsd, hlrun, hback, _, hsrun, rfl, rfl, getLsbD_sahfImage regs hr⟩

-- `lahf` and `sahf` with ZF and CF set.
theorem decodeOneAt_lahf_sahf_correct_zf :
    ∃ l s, decodeOneAt [0x9F] 0 0x1000 = .ok l ∧ decodeOneAt [0x9E] 0 0x1001 = .ok s ∧
      interpretBlock l.stmts { GuestRegs.default with cf := 1, rflags := 0x43 } =
        some (.fallthrough, lahf { GuestRegs.default with cf := 1, rflags := 0x43 }) ∧
      (lahf { GuestRegs.default with cf := 1, rflags := 0x43 }).gpr .rax = 0x4300 := by
  have ⟨l, s, hl, hs, hrun, _⟩ := @decodeOneAt_lahf_sahf_correct [0x9F] 0 ⟨{}, 0, 0x9F⟩ [0x9E] 0
    ⟨{}, 0, 0x9E⟩ rfl rfl rfl rfl rfl rfl 0x1000 0x1001
    { GuestRegs.default with cf := 1, rflags := 0x43 } rfl rfl
  exact ⟨l, s, hl, hs, hrun, rfl⟩

end Decoder

end Prisma
