import Prisma.Interp.Theorems.Arith

-- Identities of the interpreter's arithmetic that hold at every operand size.

namespace Prisma

variable {a b r : U64} {size : OpSize} {op : BinOpKind}

attribute [local simp] BinOpKind.apply

theorem evalBinop_self_of_cancel (h : op = .sub ∨ op = .xor) :
    evalBinop op a a size = some 0 := by
  rw [evalBinop_eq]
  rcases h with rfl | rfl <;> simp

theorem evalBinop_self_of_idem (h : op = .or ∨ op = .and) :
    evalBinop op a a size = some (mask a size) := by
  rw [evalBinop_eq, mask_eq_setWidth]
  rcases h with rfl | rfl <;> simp

theorem evalBinop_zero_right (h : op = .mul ∨ op = .and ∨ op = .uMulHi ∨ op = .sMulHi) :
    evalBinop op a 0 size = some 0 := by
  rw [evalBinop_eq]
  rcases h with rfl | rfl | rfl | rfl <;> simp

theorem evalBinop_mul_zero_left : evalBinop .mul 0 b size = some 0 := by
  rw [evalBinop_eq]
  simp

theorem evalBinop_zero_left (h : op = .mul ∨ op = .and ∨ op = .uMulHi ∨ op = .sMulHi ∨ op = .uDiv ∨
    op = .sDiv ∨ op = .uMod ∨ op = .sMod) (hr : evalBinop op 0 b size = some r) : r = 0 := by
  rw [evalBinop_eq] at hr
  rcases h with rfl | rfl | rfl | rfl | rfl | rfl | rfl | rfl <;> simp_all

theorem setWidth_one_bitWidth : (1 : U64).setWidth size.bitWidth = 1#(size.bitWidth) := by
  cases size <;> rfl

theorem toInt_one_bitWidth : (1#(size.bitWidth)).toInt = 1 := by
  cases size <;> rfl

theorem evalBinop_one_right (h : op = .uMulHi ∨ op = .uMod ∨ op = .sMod) :
    evalBinop op a 1 size = some 0 := by
  have hw : size.bitWidth ≠ 0 := size.bitWidth_pos.ne'
  rw [evalBinop_eq, setWidth_one_bitWidth]
  rcases h with rfl | rfl | rfl
  · have hone : (1#(size.bitWidth)).toNat = 1 := by cases size <;> rfl
    rw [BinOpKind.apply, hone, Nat.mul_one, Nat.div_eq_of_lt (BitVec.isLt _)]
    simp
  · simp [hw]
  · simp [hw, toInt_one_bitWidth]

theorem setWidth_mask_bitWidth : size.mask.setWidth size.bitWidth = BitVec.allOnes size.bitWidth := by
  cases size <;> rfl

theorem evalBinop_or_mask_right : evalBinop .or a size.mask size = some size.mask := by
  rw [evalBinop_eq, setWidth_mask_bitWidth, OpSize.mask_eq_allOnes]
  simp

theorem evalBinop_or_mask_left : evalBinop .or size.mask b size = some size.mask := by
  rw [evalBinop_eq, setWidth_mask_bitWidth, OpSize.mask_eq_allOnes]
  simp

theorem evalBinop_neutral_right (h : (op = .add ∨ op = .sub) ∧ c = 0 ∨ op = .mul ∧ c = 1) :
    evalBinop op a c size = some (mask a size) := by
  rw [evalBinop_eq, mask_eq_setWidth]
  rcases h with ⟨rfl | rfl, rfl⟩ | ⟨rfl, rfl⟩
  · simp
  · simp
  · rw [setWidth_one_bitWidth]
    simp

theorem evalBinop_neutral_left (h : op = .add ∧ c = 0 ∨ op = .mul ∧ c = 1) :
    evalBinop op c b size = some (mask b size) := by
  rw [evalBinop_eq, mask_eq_setWidth]
  rcases h with ⟨rfl, rfl⟩ | ⟨rfl, rfl⟩
  · simp
  · rw [setWidth_one_bitWidth]
    simp

end Prisma
