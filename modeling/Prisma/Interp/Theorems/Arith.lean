import Mathlib.Tactic.NormNum
import Prisma.Interp.Theorems.Mask

namespace Prisma

open BitVec

-- What the kinds of `BinOp` compute, as operations on bit vectors of the operand size. Shift counts
-- are taken modulo 64 whatever the size. Kinds the interpreter does not know have no value.
def BinOpKind.apply {w : Nat} (op : BinOpKind) (x y : BitVec w) : Option (BitVec w) :=
  match op with
  | .add => some (x + y)
  | .sub => some (x - y)
  | .mul => some (x * y)
  | .and => some (x &&& y)
  | .or => some (x ||| y)
  | .xor => some (x ^^^ y)
  | .shl => some (x <<< (y.toNat % 64))
  | .shr => some (x >>> (y.toNat % 64))
  | .sar => some (x.sshiftRight (y.toNat % 64))
  | .rol => some (x.rotateLeft y.toNat)
  | .ror => some (x.rotateRight y.toNat)
  | .uMulHi => some (BitVec.ofNat w (x.toNat * y.toNat / 2 ^ w))
  | .sMulHi => some (BitVec.ofInt w (x.toInt * y.toInt / 2 ^ w))
  | .uDiv => if y = 0 then none else some (x / y)
  | .sDiv => if y = 0 then none else some (BitVec.ofInt w (x.toInt.tdiv y.toInt))
  | .uMod => if y = 0 then none else some (x % y)
  | .sMod => if y = 0 then none else some (BitVec.ofInt w (x.toInt.tmod y.toInt))
  | .rcl | .rcr | .pdep | .pext => none

section EvalBinop

variable (a b : U64) (size : OpSize)

theorem count_toNat : (mask b size &&& 63).toNat = (b.setWidth size.bitWidth).toNat % 64 := by
  have h : ∀ x : U64, (x &&& 63).toNat = x.toNat % 64 := fun x =>
    (toNat_and x 63).trans (Nat.and_two_pow_sub_one_eq_mod x.toNat 6)
  rw [h, toNat_mask, toNat_setWidth]

theorem setWidth_shr_mask (n : Nat) : (mask a size >>> n).setWidth size.bitWidth =
    a.setWidth size.bitWidth >>> n := by
  apply eq_of_getLsbD_eq
  intro i hi
  simp [getLsbD_mask, hi]

theorem setWidth_sar_mask (n : Nat) :
    (BitVec.ofInt 64 (signExtendToI128 (mask a size) size >>> n)).setWidth size.bitWidth =
      (a.setWidth size.bitWidth).sshiftRight n := by
  rw [Bits.setWidth_ofInt_of_le size.bitWidth_le, signExtendToI128_mask, signExtendToI128_eq_toInt,
    BitVec.sshiftRight]

theorem setWidth_rol_mask (hn : n < size.bitWidth) :
    (((mask a size <<< n) ||| (mask a size >>> (size.bitWidth - n))) &&& size.mask).setWidth
      size.bitWidth = (a.setWidth size.bitWidth).rotateLeft n := by
  have hw := size.bitWidth_le
  apply eq_of_getLsbD_eq
  intro i hi
  have h₁ : i < 64 := by omega
  rw [getLsbD_rotateLeft_of_le hn]
  simp only [getLsbD_setWidth, getLsbD_and, getLsbD_or,
    getLsbD_shiftLeft, getLsbD_ushiftRight, getLsbD_mask, OpSize.getLsbD_mask, hi, h₁,
    decide_true, Bool.true_and, Bool.and_true]
  by_cases h : i < n
  case pos => simp [h, show size.bitWidth - n + i < size.bitWidth by omega]
  case neg =>
    simp [h, show i - n < size.bitWidth by omega, show ¬size.bitWidth - n + i < size.bitWidth by omega]

theorem setWidth_ror_mask (hn : n < size.bitWidth) :
    (((mask a size >>> n) ||| (mask a size <<< (size.bitWidth - n))) &&& size.mask).setWidth
      size.bitWidth = (a.setWidth size.bitWidth).rotateRight n := by
  have hw := size.bitWidth_le
  apply eq_of_getLsbD_eq
  intro i hi
  have h₁ : i < 64 := by omega
  rw [getLsbD_rotateRight_of_lt hn]
  simp only [getLsbD_setWidth, getLsbD_and, getLsbD_or,
    getLsbD_shiftLeft, getLsbD_ushiftRight, getLsbD_mask, OpSize.getLsbD_mask, hi, h₁,
    decide_true, Bool.true_and, Bool.and_true]
  by_cases h : i < size.bitWidth - n
  case pos => simp [h, show n + i < size.bitWidth by omega]
  case neg =>
    simp [h, show ¬n + i < size.bitWidth by omega,
      show i - (size.bitWidth - n) < size.bitWidth by omega]

theorem setWidth_uMulHi_mask :
    ((((mask a size).setWidth 128 * (mask b size).setWidth 128) >>> size.bitWidth).setWidth
      64).setWidth size.bitWidth =
      BitVec.ofNat size.bitWidth ((a.setWidth size.bitWidth).toNat *
        (b.setWidth size.bitWidth).toNat / 2 ^ size.bitWidth) := by
  have hw := size.bitWidth_le
  apply eq_of_toNat_eq
  have h : ∀ x : U64, x.toNat < 2 ^ 64 := fun x => x.isLt
  have hp : (mask a size).toNat * (mask b size).toNat < 2 ^ 128 := by
    calc (mask a size).toNat * (mask b size).toNat
      _ < 2 ^ 64 * 2 ^ 64 := Nat.mul_lt_mul'' (h _) (h _)
      _ = 2 ^ 128 := by norm_num
  rw [setWidth_setWidth_of_le _ hw]
  simp only [toNat_setWidth, toNat_ushiftRight, toNat_mul, toNat_ofNat,
    Nat.shiftRight_eq_div_pow]
  rw [Nat.mod_eq_of_lt (a := (mask a size).toNat) (by have := h (mask a size); omega),
    Nat.mod_eq_of_lt (a := (mask b size).toNat) (by have := h (mask b size); omega),
    Nat.mod_eq_of_lt hp, toNat_mask, toNat_mask]

theorem setWidth_sMulHi_mask :
    (BitVec.ofInt 64 ((signExtendToI128 (mask a size) size * signExtendToI128 (mask b size) size) >>>
      size.bitWidth)).setWidth size.bitWidth =
      BitVec.ofInt size.bitWidth ((a.setWidth size.bitWidth).toInt *
        (b.setWidth size.bitWidth).toInt / 2 ^ size.bitWidth) := by
  rw [Bits.setWidth_ofInt_of_le size.bitWidth_le, signExtendToI128_mask, signExtendToI128_mask,
    signExtendToI128_eq_toInt, signExtendToI128_eq_toInt, Int.shiftRight_eq_div_pow]
  push_cast
  rfl

theorem setWidth_uDiv_mask : (mask a size / mask b size).setWidth size.bitWidth =
    a.setWidth size.bitWidth / b.setWidth size.bitWidth := by
  apply eq_of_toNat_eq
  simp only [toNat_setWidth, toNat_udiv, toNat_mask]
  exact Nat.mod_eq_of_lt (Nat.lt_of_le_of_lt (Nat.div_le_self _ _) (Nat.mod_lt _ (by simp)))

theorem setWidth_uMod_mask : (mask a size % mask b size).setWidth size.bitWidth =
    a.setWidth size.bitWidth % b.setWidth size.bitWidth := by
  apply eq_of_toNat_eq
  simp only [toNat_setWidth, toNat_umod, toNat_mask]
  exact Nat.mod_eq_of_lt (Nat.lt_of_le_of_lt (Nat.mod_le _ _) (Nat.mod_lt _ (by simp)))

theorem ofInt_minimum : BitVec.ofInt size.bitWidth (-2 ^ (size.bitWidth - 1)) =
    BitVec.ofInt size.bitWidth ((-2 ^ (size.bitWidth - 1) : Int).tdiv (-1)) := by
  cases size <;> rfl

theorem setWidth_sDiv (x y : Int) :
    (if x = -2 ^ (size.bitWidth - 1) ∧ y = -1 then BitVec.ofInt 64 x
      else BitVec.ofInt 64 (x.tdiv y)).setWidth size.bitWidth =
      BitVec.ofInt size.bitWidth (x.tdiv y) := by
  split
  case isTrue h => rw [Bits.setWidth_ofInt_of_le size.bitWidth_le, h.left, h.right, ofInt_minimum]
  case isFalse => rw [Bits.setWidth_ofInt_of_le size.bitWidth_le]

theorem setWidth_sMod (x y : Int) :
    (if x = -2 ^ (size.bitWidth - 1) ∧ y = -1 then 0
      else BitVec.ofInt 64 (x.tmod y)).setWidth size.bitWidth =
      BitVec.ofInt size.bitWidth (x.tmod y) := by
  split
  case isTrue h => simp [h.right]
  case isFalse => rw [Bits.setWidth_ofInt_of_le size.bitWidth_le]

variable {a b size} in
theorem mask_eq_of_setWidth_eq {x : U64} (h : x.setWidth size.bitWidth = y) :
    mask x size = y.setWidth 64 := by
  rw [mask_eq_setWidth, h]

theorem rotate_count : (mask b size).toNat % size.bitWidth =
    (b.setWidth size.bitWidth).toNat % size.bitWidth := by
  rw [toNat_mask, toNat_setWidth]

theorem evalBinop_eq (op : BinOpKind) : evalBinop op a b size =
    (op.apply (a.setWidth size.bitWidth) (b.setWidth size.bitWidth)).map (·.setWidth 64) := by
  have hw := size.bitWidth_le
  have hc : (b.setWidth size.bitWidth).toNat % size.bitWidth < size.bitWidth :=
    Nat.mod_lt _ size.bitWidth_pos
  cases op
  all_goals simp only [evalBinop, BinOpKind.apply, Option.map_some, Option.map_none, count_toNat,
    rotate_count, mask_eq_zero_iff]
  case add =>
    refine congrArg some (mask_eq_of_setWidth_eq ?_)
    rw [setWidth_add _ _ hw, setWidth_mask, setWidth_mask]
  case sub =>
    refine congrArg some (mask_eq_of_setWidth_eq ?_)
    rw [Bits.setWidth_sub_of_le hw, setWidth_mask, setWidth_mask]
  case mul =>
    refine congrArg some (mask_eq_of_setWidth_eq ?_)
    rw [setWidth_mul _ _ hw, setWidth_mask, setWidth_mask]
  case and =>
    refine congrArg some (mask_eq_of_setWidth_eq ?_)
    rw [setWidth_and, setWidth_mask, setWidth_mask]
  case or =>
    refine congrArg some (mask_eq_of_setWidth_eq ?_)
    rw [setWidth_or, setWidth_mask, setWidth_mask]
  case xor =>
    refine congrArg some (mask_eq_of_setWidth_eq ?_)
    rw [setWidth_xor, setWidth_mask, setWidth_mask]
  case shl =>
    refine congrArg some (mask_eq_of_setWidth_eq ?_)
    rw [setWidth_shiftLeft_of_le hw, setWidth_mask]
  case shr => exact congrArg some (mask_eq_of_setWidth_eq (setWidth_shr_mask a size _))
  case sar => exact congrArg some (mask_eq_of_setWidth_eq (setWidth_sar_mask a size _))
  case rol =>
    rw [← rotateLeft_mod_eq_rotateLeft]
    split
    case isTrue h =>
      refine congrArg some (mask_eq_of_setWidth_eq ?_)
      rw [setWidth_mask, h, Bits.rotateLeft_zero]
    case isFalse => exact congrArg some (mask_eq_of_setWidth_eq (setWidth_rol_mask a size hc))
  case ror =>
    rw [← rotateRight_mod_eq_rotateRight]
    split
    case isTrue h =>
      refine congrArg some (mask_eq_of_setWidth_eq ?_)
      rw [setWidth_mask, h, Bits.rotateRight_zero]
    case isFalse => exact congrArg some (mask_eq_of_setWidth_eq (setWidth_ror_mask a size hc))
  case uMulHi => exact congrArg some (mask_eq_of_setWidth_eq (setWidth_uMulHi_mask a b size))
  case sMulHi => exact congrArg some (mask_eq_of_setWidth_eq (setWidth_sMulHi_mask a b size))
  case uDiv =>
    split
    case isTrue => rfl
    case isFalse => exact congrArg some (mask_eq_of_setWidth_eq (setWidth_uDiv_mask a b size))
  case uMod =>
    split
    case isTrue => rfl
    case isFalse => exact congrArg some (mask_eq_of_setWidth_eq (setWidth_uMod_mask a b size))
  case sDiv =>
    split
    case isTrue => rfl
    case isFalse =>
      rw [← apply_ite some, signExtendToI128_mask, signExtendToI128_mask, signExtendToI128_eq_toInt,
        signExtendToI128_eq_toInt]
      exact congrArg some (mask_eq_of_setWidth_eq (setWidth_sDiv size _ _))
  case sMod =>
    split
    case isTrue => rfl
    case isFalse =>
      rw [← apply_ite some, signExtendToI128_mask, signExtendToI128_mask, signExtendToI128_eq_toInt,
        signExtendToI128_eq_toInt]
      exact congrArg some (mask_eq_of_setWidth_eq (setWidth_sMod size _ _))

end EvalBinop

end Prisma
