import Prisma.Lib.Bits
import Prisma.Interp.Arith

namespace Prisma

open BitVec

namespace OpSize

theorem bitWidth_le (size : OpSize) : size.bitWidth ≤ 64 := by
  cases size <;> decide

theorem bitWidth_pos (size : OpSize) : 0 < size.bitWidth := by
  cases size <;> decide

theorem bitWidth_dvd (size : OpSize) : size.bitWidth ∣ 64 := by
  cases size <;> decide

theorem mask_eq_allOnes (size : OpSize) :
    size.mask = (BitVec.allOnes size.bitWidth).setWidth 64 := by
  cases size <;> rfl

theorem getLsbD_mask (size : OpSize) (i : Nat) :
    size.mask.getLsbD i = decide (i < size.bitWidth) := by
  have h := size.bitWidth_le
  simp only [mask_eq_allOnes, getLsbD_setWidth, getLsbD_allOnes]
  by_cases hi : i < size.bitWidth
  case pos => simp [hi, Nat.lt_of_lt_of_le hi h]
  case neg => simp [hi]

end OpSize

section Mask

variable (value : U64) (size : OpSize)

theorem mask_eq_and : mask value size = value &&& size.mask := by
  cases size
  case i64 => exact and_allOnes.symm
  all_goals rfl

theorem getLsbD_mask (i : Nat) :
    (mask value size).getLsbD i = (decide (i < size.bitWidth) && value.getLsbD i) := by
  rw [mask_eq_and, getLsbD_and, OpSize.getLsbD_mask, Bool.and_comm]

theorem mask_eq_setWidth : mask value size = (value.setWidth size.bitWidth).setWidth 64 := by
  apply eq_of_getLsbD_eq
  intro i hi
  simp only [getLsbD_mask, getLsbD_setWidth, hi, decide_true, Bool.true_and]

theorem toNat_mask : (mask value size).toNat = value.toNat % 2 ^ size.bitWidth := by
  rw [mask_eq_setWidth, toNat_setWidth_of_le size.bitWidth_le, toNat_setWidth]

theorem setWidth_mask :
    (mask value size).setWidth size.bitWidth = value.setWidth size.bitWidth := by
  rw [mask_eq_setWidth, setWidth_setWidth_of_le _ size.bitWidth_le, setWidth_eq]

@[simp]
theorem mask_mask : mask (mask value size) size = mask value size := by
  rw [mask_eq_setWidth, setWidth_mask, mask_eq_setWidth]

@[simp]
theorem mask_i64 : mask value .i64 = value :=
  rfl

end Mask

theorem mask_eq_iff :
    mask a size = mask b size ↔ a.setWidth size.bitWidth = b.setWidth size.bitWidth where
  mp h := by rw [← setWidth_mask a, ← setWidth_mask b, h]
  mpr h := by rw [mask_eq_setWidth, mask_eq_setWidth, h]

theorem mask_eq_zero_iff (b : U64) (size : OpSize) : mask b size = 0 ↔ b.setWidth size.bitWidth = 0 := by
  have h : (0 : U64) = mask 0 size := by cases size <;> rfl
  rw [h, mask_eq_iff, ofNat_eq_ofNat, setWidth_zero]
  rfl

theorem mask_merge (x value : U64) (size : OpSize) :
    mask ((x &&& ~~~size.mask) ||| mask value size) size = mask value size := by
  apply eq_of_getLsbD_eq
  intro i _
  simp only [getLsbD_mask, getLsbD_or, getLsbD_and, getLsbD_not,
    OpSize.getLsbD_mask]
  by_cases h : i < size.bitWidth <;> simp [h]

theorem storeReg_inj :
    storeReg regs reg v size = storeReg regs reg w size ↔ mask v size = mask w size where
  mp h := by
    have h := congrArg (fun regs => mask (regs.gpr reg) size) h
    cases size
    case i8 =>
      simp only [storeReg, if_true] at h
      exact (mask_merge _ v .i8).symm.trans (h.trans (mask_merge _ w .i8))
    case i16 =>
      simp only [storeReg, if_true] at h
      exact (mask_merge _ v .i16).symm.trans (h.trans (mask_merge _ w .i16))
    all_goals simpa [storeReg] using h
  mpr h := by simp only [storeReg, h]

section SignExtend

variable (value : U64) (size : OpSize)

theorem signExtendToI128_eq_toInt :
    signExtendToI128 value size = (value.setWidth size.bitWidth).toInt := by
  have hw := size.bitWidth_pos
  have hm : (mask value size).getLsbD (size.bitWidth - 1) =
      (value.setWidth size.bitWidth).msb := by
    rw [msb_eq_getLsbD_last, getLsbD_mask, getLsbD_setWidth]
  simp only [signExtendToI128, hm, toInt_eq_msb_cond, toNat_mask, toNat_setWidth]
  push_cast
  rfl

theorem signExtendToU64_eq :
    signExtendToU64 value size = (value.setWidth size.bitWidth).signExtend 64 := by
  rw [signExtendToU64, signExtendToI128_eq_toInt, BitVec.signExtend]

@[simp]
theorem signExtendToI128_mask :
    signExtendToI128 (mask value size) size = signExtendToI128 value size := by
  rw [signExtendToI128_eq_toInt, setWidth_mask, signExtendToI128_eq_toInt]

end SignExtend

theorem and_one_shiftLeft_ne_zero_iff (hn : n < 64) :
    v &&& (1#64 <<< n) ≠ 0 ↔ v.getLsbD n = true := by
  rw [← twoPow_eq, and_twoPow]
  split
  case isTrue hv =>
    simp only [hv, iff_true]
    intro hz
    have h := congrArg (·.getLsbD n) hz
    simp [hn] at h
  case isFalse hv => simp [hv]

theorem signExtendToU64_of_mask (v : U64) (h : size ≠ .i64) :
    (if mask v size &&& (1#64 <<< (size.bitWidth - 1)) ≠ 0
      then mask v size ||| ~~~((1#64 <<< size.bitWidth) - 1)
      else mask v size) = signExtendToU64 v size := by
  have hp := size.bitWidth_pos
  have hw := size.bitWidth_le
  have hm : (1#64 <<< size.bitWidth) - 1 = size.mask := by cases size <;> simp_all <;> rfl
  have h₁ : size.bitWidth - 1 < 64 := by omega
  have h₂ : size.bitWidth - 1 < size.bitWidth := by omega
  rw [signExtendToU64_eq, hm]
  simp only [and_one_shiftLeft_ne_zero_iff h₁, getLsbD_mask, h₂, decide_true, Bool.true_and]
  apply eq_of_getLsbD_eq
  intro i hi
  rw [getLsbD_signExtend, msb_eq_getLsbD_last]
  simp only [getLsbD_setWidth, h₂, decide_true, Bool.true_and, hi]
  split
  case isTrue hs =>
    simp only [getLsbD_or, getLsbD_not, getLsbD_mask, OpSize.getLsbD_mask, hi, hs,
      decide_true, Bool.true_and]
    by_cases hi : i < size.bitWidth <;> simp [hi]
  case isFalse hs =>
    simp only [getLsbD_mask, Bool.not_eq_true _ ▸ hs]
    by_cases hi : i < size.bitWidth <;> simp [hi]

end Prisma
