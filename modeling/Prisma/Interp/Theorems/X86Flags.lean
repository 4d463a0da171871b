import Prisma.Lib.Carry
import Prisma.Interp.Theorems.Flags
import Prisma.Interp.Theorems.Rflags

-- The flags that the interpreter computes are those of x86, up to the polarity of the carry.

namespace Prisma

open Bits

section Nzcv

variable (a b : U64) (size : OpSize)

theorem addFlags_eq :
    addFlags a b size =
      { n := (a.setWidth size.bitWidth + b.setWidth size.bitWidth).msb
        z := a.setWidth size.bitWidth + b.setWidth size.bitWidth == 0
        c := 2 ^ size.bitWidth ≤ (a.setWidth size.bitWidth).toNat + (b.setWidth size.bitWidth).toNat
        v := (a.setWidth size.bitWidth).saddOverflow (b.setWidth size.bitWidth) } := by
  have hs : (mask (mask a size + mask b size) size).setWidth size.bitWidth =
      a.setWidth size.bitWidth + b.setWidth size.bitWidth := by
    rw [setWidth_mask, BitVec.setWidth_add _ _ size.bitWidth_le, setWidth_mask, setWidth_mask]
  have hz : (mask (mask a size + mask b size) size == 0) =
      (a.setWidth size.bitWidth + b.setWidth size.bitWidth == 0) := by
    rw [← hs, setWidth_mask]
    apply Bool.eq_iff_iff.mpr
    simp only [beq_iff_eq]
    exact mask_eq_zero_iff _ size
  have hc : decide (mask (mask a size + mask b size) size < mask a size) =
      decide (2 ^ size.bitWidth ≤
        (a.setWidth size.bitWidth).toNat + (b.setWidth size.bitWidth).toNat) := by
    rw [mask_ult, ← setWidth_mask (mask a size + mask b size), hs, BitVec.ult_eq_decide]
    have h := toNat_add_carryIn (a.setWidth size.bitWidth) (b.setWidth size.bitWidth) false
      size.bitWidth_pos
    rw [carryIn_false, BitVec.add_zero, Bool.toNat_false, Nat.add_zero] at h
    have ha := (a.setWidth size.bitWidth).isLt
    have hb := (b.setWidth size.bitWidth).isLt
    apply decide_eq_decide.mpr
    split at h <;> omega
  simp only [addFlags, msb_eq, hs, hz, hc, setWidth_mask, BitVec.saddOverflow_eq, bne]

end Nzcv

section Status

variable {size : OpSize} (x y : BitVec size.bitWidth)

theorem signedOverflow_add : X86.signedOverflow size.bitWidth (x.toInt + y.toInt + false.toNat) =
    x.saddOverflow y := by
  rw [X86.signedOverflow, BitVec.saddOverflow, Bool.toNat_false, Int.natCast_zero, Int.add_zero,
    Bool.or_comm]

theorem signedOverflow_sub : X86.signedOverflow size.bitWidth (x.toInt - y.toInt - false.toNat) =
    x.ssubOverflow y := by
  rw [X86.signedOverflow, BitVec.ssubOverflow, Bool.toNat_false, Int.natCast_zero, Int.sub_zero,
    Bool.or_comm]

theorem four_lt_bitWidth : 4 < size.bitWidth := by
  cases size <;> decide

theorem auxCarry (c : Bool) : (x ^^^ y ^^^ (x + y + carryIn size.bitWidth c)).getLsbD 4 =
    decide (16 ≤ x.toNat % 16 + y.toNat % 16 + c.toNat) :=
  getLsbD_xor_add x y c four_lt_bitWidth

theorem auxBorrow (c : Bool) : (x ^^^ y ^^^ (x - y - carryIn size.bitWidth c)).getLsbD 4 =
    decide (x.toNat % 16 < y.toNat % 16 + c.toNat) :=
  getLsbD_xor_sub x y c four_lt_bitWidth

theorem publishedFlags_add :
    publishedFlags (addFlags (x.setWidth 64) (y.setWidth 64) size) .armCarry
        (bit (X86.evenParity (x + y))) (some (bit ((x ^^^ y ^^^ (x + y)).getLsbD 4))) =
      X86.addFlags x y (x + y) false := by
  have ha := auxCarry x y false
  rw [carryIn_false, BitVec.add_zero] at ha
  simp only [publishedFlags, publishedCarry, addFlags_eq, setWidth_word, X86.addFlags, isOne_bit,
    Option.map_some, ha, signedOverflow_add]
  rfl

theorem publishedFlags_sub :
    publishedFlags (subFlags (x.setWidth 64) (y.setWidth 64) size) .invertArmCarry
        (bit (X86.evenParity (x - y))) (some (bit ((x ^^^ y ^^^ (x - y)).getLsbD 4))) =
      X86.subFlags x y (x - y) false := by
  have ha := auxBorrow x y false
  rw [carryIn_false, BitVec.sub_zero] at ha
  simp only [publishedFlags, publishedCarry, subFlags_eq, setWidth_word, X86.subFlags, isOne_bit,
    Option.map_some, ha, signedOverflow_sub, ← sub_beq_zero x, BitVec.ule_eq_not_ult, Bool.not_not,
    BitVec.ult_eq_decide]
  rfl

theorem publishedFlags_logic {z : U64} (hz : z.setWidth size.bitWidth = x) :
    publishedFlags (logicFlags z size) .clear (bit (X86.evenParity x)) none = X86.logicFlags x := by
  have h0 : (mask z size == 0) = (x == 0) := by
    apply Bool.eq_iff_iff.mpr
    simp only [beq_iff_eq]
    exact hz ▸ mask_eq_zero_iff z size
  simp only [publishedFlags, publishedCarry, logicFlags, X86.logicFlags, isOne_bit, Option.map_none,
    msb_eq, hz, h0]

end Status

end Prisma
