import Prisma.Interp.Theorems.Mask

namespace Prisma

open BitVec Bool Bits

-- What a condition code means after `x` was compared with `y`, both of the operand size. `nc` and
-- `cc` are "no borrow" and "borrow".
def CondCode.compare {w : Nat} (cc : CondCode) (x y : BitVec w) : Bool :=
  match cc with
  | .eq => x == y
  | .ne => x != y
  | .uge | .nc => y.ule x
  | .ult | .cc => x.ult y
  | .ugt => y.ult x
  | .ule => x.ule y
  | .sge => y.sle x
  | .slt => x.slt y
  | .sgt => y.slt x
  | .sle => x.sle y
  | .mi => (x - y).msb
  | .pl => !(x - y).msb
  | .ov => x.ssubOverflow y
  | .noOv => !x.ssubOverflow y

section Flags

variable (a b : U64) (size : OpSize)

theorem msb_eq : msb a size = (a.setWidth size.bitWidth).msb := by
  have hw := size.bitWidth_le
  have hp := size.bitWidth_pos
  rw [msb, ofNat_eq_ofNat, and_one_eq_setWidth_ofBool_getLsbD, getLsbD_ushiftRight,
    msb_setWidth]
  simp only [hp, decide_true, Bool.true_and, Nat.add_zero]
  cases a.getLsbD (size.bitWidth - 1) <;> rfl

theorem mask_ult : decide (mask a size < mask b size) =
    (a.setWidth size.bitWidth).ult (b.setWidth size.bitWidth) := by
  rw [ult_eq_decide, toNat_setWidth, toNat_setWidth, ← toNat_mask, ← toNat_mask]
  rfl

theorem mask_ule : decide (mask a size ≤ mask b size) =
    (a.setWidth size.bitWidth).ule (b.setWidth size.bitWidth) := by
  rw [ule_eq_decide, toNat_setWidth, toNat_setWidth, ← toNat_mask, ← toNat_mask]
  rfl

theorem mask_beq : (mask a size == mask b size) =
    (a.setWidth size.bitWidth == b.setWidth size.bitWidth) := by
  apply Bool.eq_iff_iff.mpr
  simp only [beq_iff_eq]
  exact mask_eq_iff

theorem subFlags_eq :
    subFlags a b size =
      { n := (a.setWidth size.bitWidth - b.setWidth size.bitWidth).msb
        z := a.setWidth size.bitWidth == b.setWidth size.bitWidth
        c := (b.setWidth size.bitWidth).ule (a.setWidth size.bitWidth)
        v := (a.setWidth size.bitWidth).ssubOverflow (b.setWidth size.bitWidth) } := by
  have hd : (mask (mask a size - mask b size) size).setWidth size.bitWidth =
      a.setWidth size.bitWidth - b.setWidth size.bitWidth := by
    rw [setWidth_mask, Bits.setWidth_sub_of_le size.bitWidth_le, setWidth_mask, setWidth_mask]
  have hz : (mask (mask a size - mask b size) size == 0) =
      (a.setWidth size.bitWidth == b.setWidth size.bitWidth) := by
    rw [← Bits.sub_beq_zero (a.setWidth _), ← hd, setWidth_mask]
    apply Bool.eq_iff_iff.mpr
    simp only [beq_iff_eq]
    exact mask_eq_zero_iff _ size
  simp only [subFlags, msb_eq, hd, hz, mask_ule, setWidth_mask, Bits.ssubOverflow_eq_bne]

theorem evalCc_subFlags (cc : CondCode) : evalCc cc (subFlags a b size) =
    cc.compare (a.setWidth size.bitWidth) (b.setWidth size.bitWidth) := by
  rw [subFlags_eq]
  cases cc
  case ult | cc => simp only [evalCc, CondCode.compare, BitVec.ule_eq_not_ult, Bool.not_not]
  case ugt => exact Bits.ule_and_ne _ _
  case ule =>
    simp only [evalCc, CondCode.compare, BitVec.ule_eq_not_ult (b.setWidth _), Bool.not_not,
      Bits.ult_or_eq]
  case slt => exact Bits.msb_sub_bne_ssubOverflow _ _
  case sge => exact Bits.msb_sub_beq_ssubOverflow _ _
  case sgt =>
    simp only [evalCc, CondCode.compare, Bits.msb_sub_beq_ssubOverflow, Bits.ne_and_sle]
  case sle =>
    simp only [evalCc, CondCode.compare, Bits.msb_sub_bne_ssubOverflow, Bits.eq_or_slt]
  all_goals rfl

end Flags

end Prisma
