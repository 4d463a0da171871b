import Prisma.Interp.Theorems.Rflags
import Prisma.Decoder.Theorems.Prefixes

-- Reading and writing register operands.

namespace Prisma.X86

open BitVec Function

variable (regs : GuestRegs) (reg : Gpr) {size : OpSize}

theorem readGpr_writeGpr (x : BitVec size.bitWidth) : readGpr (writeGpr regs reg x) reg size = x := by
  have hn (old : U64) : (old >>> size.bitWidth <<< size.bitWidth ||| x.setWidth 64).setWidth
      size.bitWidth = x := by
    apply BitVec.eq_of_getLsbD_eq
    intro i hi
    have hw := size.bitWidth_le
    simp [hi, show i < 64 by omega]
  simp only [readGpr, writeGpr, setGpr, Function.update_self]
  cases size
  case i64 | i32 => exact setWidth_word x
  case i16 | i8 => exact hn _

theorem writeTo_i8_setWidth (old : U64) : writeTo .i8 old (old.setWidth 8) = old := by
  apply eq_of_getLsbD_eq
  intro i hi
  by_cases hw : i < 8
  case pos => simp [writeTo, OpSize.bitWidth, hi, hw]
  case neg => simp [writeTo, OpSize.bitWidth, hi, hw, show 8 + (i - 8) = i by omega]

theorem writeGpr_readGpr_i8 : writeGpr regs reg (readGpr regs reg .i8) = regs := by
  change setGpr regs reg (writeTo .i8 (regs.gpr reg) ((regs.gpr reg).setWidth 8)) = regs
  rw [writeTo_i8_setWidth, setGpr, Function.update_eq_self]

theorem writeGpr_inj {x y : BitVec size.bitWidth} :
    (writeGpr regs reg x).gpr = (writeGpr regs reg y).gpr ↔ x = y := by
  refine ⟨fun h => ?_, fun h => h ▸ rfl⟩
  have hr : readGpr (writeGpr regs reg x) reg size = readGpr (writeGpr regs reg y) reg size := by
    rw [readGpr, readGpr, h]
  rwa [readGpr_writeGpr, readGpr_writeGpr] at hr

namespace Operand

theorem getLsbD_writeHighByte (old : U64) (v : U8) (hi : i < 64) :
    (writeHighByte old v).getLsbD i = if 8 ≤ i ∧ i < 16 then v.getLsbD (i - 8) else old.getLsbD i := by
  simp only [writeHighByte, getLsbD_or, getLsbD_shiftLeft, getLsbD_ushiftRight,
    getLsbD_setWidth, hi, decide_true, Bool.true_and]
  by_cases hl : i < 8
  case pos => simp [hl, show ¬8 ≤ i by omega, show i < 16 by omega]
  case neg =>
    by_cases hh : i < 16
    case pos => simp [hl, hh, show 8 ≤ i by omega, show i - 8 < 64 by omega]
    case neg =>
      have hv : v.getLsbD (i - 8) = false := getLsbD_of_ge v _ (by omega)
      simp [hl, hh, hv, show 16 + (i - 16) = i by omega]

theorem extractLsb'_writeHighByte (old : U64) (v : U8) :
    (writeHighByte old v).extractLsb' 8 8 = v := by
  apply eq_of_getLsbD_eq
  intro i hi
  rw [getLsbD_extractLsb', getLsbD_writeHighByte _ _ (by omega), if_pos (by omega)]
  simp [hi]

theorem writeHighByte_extractLsb' (old : U64) : writeHighByte old (old.extractLsb' 8 8) = old := by
  apply eq_of_getLsbD_eq
  intro i hi
  rw [getLsbD_writeHighByte _ _ hi]
  split
  case isTrue hh => simp [show i - 8 < 8 by omega, show 8 + (i - 8) = i by omega]
  case isFalse => rfl

variable (number : BitVec 2)

theorem read_write_highByte (v : U8) :
    (highByte number).read ((highByte number).write regs v) = v := by
  change (Function.update regs.gpr (highByteReg number) _ (highByteReg number)).extractLsb' 8 8 = v
  rw [Function.update_self, extractLsb'_writeHighByte]

theorem write_read_highByte : (highByte number).write regs ((highByte number).read regs) = regs := by
  change setGpr regs _ (writeHighByte _ ((regs.gpr (highByteReg number)).extractLsb' 8 8)) = regs
  rw [writeHighByte_extractLsb', setGpr, Function.update_eq_self]

-- A write of the low byte of one register and a write of the high byte of another one do the same
-- only if neither changes anything.
theorem write_low_eq_write_highByte {reg : Gpr} (hne : reg ≠ highByteReg number) (x y : U8) :
    (@writeGpr regs reg .i8 x).gpr = ((highByte number).write regs y).gpr ↔
      x = readGpr regs reg .i8 ∧ y = (highByte number).read regs := by
  constructor
  case mp =>
    intro h
    have hl : (@writeGpr regs reg .i8 x).gpr reg = regs.gpr reg := by
      rw [h]
      exact Function.update_of_ne hne ..
    have hh : ((highByte number).write regs y).gpr (highByteReg number) =
        regs.gpr (highByteReg number) := by
      rw [← h]
      exact Function.update_of_ne hne.symm ..
    refine ⟨?_, ?_⟩
    · rw [← @readGpr_writeGpr regs reg .i8 x, readGpr, hl, readGpr]
    · rw [← read_write_highByte regs number y, read, hh, read]
  case mpr =>
    intro ⟨hx, hy⟩
    rw [hx, hy, writeGpr_readGpr_i8, write_read_highByte]

end Operand

section Prefixes

open Decoder

theorem instructionAt_rex (hi : instructionAt bytes offset = some insn)
    (h : insn.prefixes.rex.present = false) : insn.prefixes.rex = {} := by
  have ⟨hp, _⟩ := instructionAt_eq_some hi
  have hrex := @parsePrefixes_rex bytes offset
  rw [hp] at hrex
  exact hrex h

theorem Operand.ofField_cases (hi : instructionAt bytes offset = some insn) (extension : Bool)
    (field : BitVec 3) (size : OpSize) :
    Operand.ofField insn.prefixes extension field size = .low (register extension field) size ∨
    ∃ number : BitVec 2, Operand.ofField insn.prefixes extension field size = .highByte number ∧
      size = .i8 ∧ field = number.setWidth 3 ||| 4 ∧ insn.prefixes.rex = {} := by
  unfold Operand.ofField
  split
  case isFalse => exact .inl rfl
  case isTrue h =>
    have ⟨hs, hn⟩ := h
    simp only [namesLowByte, Bool.not_eq_true', Bool.or_eq_false_iff, Bool.not_eq_false'] at hn
    have hf : ∀ field : BitVec 3, field.getLsbD 2 = true →
        field = (field.setWidth 2).setWidth 3 ||| 4 := by decide
    exact .inr ⟨_, rfl, hs, hf field hn.right, instructionAt_rex hi hn.left⟩

end Prefixes

end Prisma.X86
