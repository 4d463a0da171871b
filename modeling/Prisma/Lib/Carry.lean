import Mathlib.Data.BitVec
import Mathlib.Tactic.Positivity
import Mathlib.Tactic.Ring

-- Carries, borrows and overflows of additions and subtractions with a carry-in.

namespace Bits

open BitVec Bool

variable {w : Nat} (x y : BitVec w) (c : Bool)

-- A carry as a number of the width.
def carryIn (w : Nat) (c : Bool) : BitVec w :=
  (BitVec.ofBool c).setWidth w

theorem toNat_carryIn (hw : 0 < w) : (carryIn w c).toNat = c.toNat := by
  have hp : 2 ^ 1 ≤ 2 ^ w := Nat.pow_le_pow_right (by decide) hw
  rw [carryIn, toNat_setWidth, toNat_ofBool, Nat.mod_eq_of_lt]
  cases c
  case false => simp
  case true =>
    simp
    omega

@[simp]
theorem carryIn_false : carryIn w false = 0#w :=
  setWidth_zero ..

theorem toNat_add_carryIn (hw : 0 < w) :
    (x + y + carryIn w c).toNat =
      if x.toNat + y.toNat + c.toNat < 2 ^ w then x.toNat + y.toNat + c.toNat
      else x.toNat + y.toNat + c.toNat - 2 ^ w := by
  have hx := x.isLt
  have hy := y.isLt
  have hc := c.toNat_le
  rw [toNat_add, toNat_add, Nat.mod_add_mod, toNat_carryIn c hw]
  split
  case isTrue h => exact Nat.mod_eq_of_lt h
  case isFalse h => rw [Nat.mod_eq_sub_mod (by omega), Nat.mod_eq_of_lt (by omega)]

theorem sub_carryIn_add : x - y - carryIn w c + y + carryIn w c = x := by
  ring

theorem toNat_sub_carryIn (hw : 0 < w) :
    (x - y - carryIn w c).toNat =
      if y.toNat + c.toNat ≤ x.toNat then x.toNat - (y.toNat + c.toNat)
      else x.toNat + 2 ^ w - (y.toNat + c.toNat) := by
  have h := toNat_add_carryIn (x - y - carryIn w c) y c hw
  rw [sub_carryIn_add] at h
  have hx := x.isLt
  have hr := (x - y - carryIn w c).isLt
  split at h <;> split <;> omega

-- Subtracting with a borrow is adding the complements.
theorem sub_carryIn_eq : x - y - carryIn w c = x + ~~~y + carryIn w !c := by
  have hone : carryIn w true = 1#w := by
    apply eq_of_toNat_eq
    simp [carryIn]
  have hneg : -y = ~~~y + 1#w := neg_eq_not_add y
  rw [BitVec.sub_eq_add_neg x, hneg]
  cases c
  case false => rw [carryIn_false, Bool.not_false, hone, BitVec.sub_zero, BitVec.add_assoc]
  case true =>
    rw [Bool.not_true, carryIn_false, hone, BitVec.add_zero]
    ring

section Bit

variable {i : Nat}

theorem getLsbD_xor_add (hi : i < w) : (x ^^^ y ^^^ (x + y + carryIn w c)).getLsbD i =
    decide (2 ^ i ≤ x.toNat % 2 ^ i + y.toNat % 2 ^ i + c.toNat) := by
  rw [getLsbD_xor, getLsbD_xor, carryIn, getLsbD_add_add_bool hi, BitVec.carry]
  cases x.getLsbD i <;> cases y.getLsbD i <;> simp

theorem getLsbD_xor_sub (hi : i < w) : (x ^^^ y ^^^ (x - y - carryIn w c)).getLsbD i =
    decide (x.toNat % 2 ^ i < y.toNat % 2 ^ i + c.toNat) := by
  have hadd := getLsbD_xor_add x (~~~y) (!c) hi
  have hy : (~~~y).toNat % 2 ^ i = 2 ^ i - 1 - y.toNat % 2 ^ i := by
    have h := congrArg BitVec.toNat (@setWidth_not w i y (Nat.le_of_lt hi))
    rwa [toNat_setWidth, @toNat_not i, toNat_setWidth] at h
  have hlt := Nat.mod_lt y.toNat (Nat.two_pow_pos i)
  have hnot : decide (x.toNat % 2 ^ i < y.toNat % 2 ^ i + c.toNat) =
      !decide (2 ^ i ≤ x.toNat % 2 ^ i + (~~~y).toNat % 2 ^ i + (!c).toNat) := by
    rw [← decide_not, hy]
    apply decide_eq_decide.mpr
    cases c <;> simp <;> omega
  rw [hnot, ← hadd, sub_carryIn_eq]
  rw [getLsbD_xor, getLsbD_xor, getLsbD_xor, getLsbD_xor, getLsbD_not, decide_eq_true hi]
  cases x.getLsbD i <;> cases y.getLsbD i <;> simp

end Bit

section Out

theorem carry_eq_or (hw : 0 < w) :
    decide (2 ^ w ≤ x.toNat + y.toNat + c.toNat) =
      (decide (2 ^ w ≤ x.toNat + y.toNat) || decide (2 ^ w ≤ (x + y).toNat + c.toNat)) := by
  have h := toNat_add_carryIn x y false hw
  rw [carryIn_false, BitVec.add_zero] at h
  have hx := x.isLt
  have hy := y.isLt
  have hc := c.toNat_le
  simp only [toNat_false, Nat.add_zero] at h
  rw [← decide_or]
  apply decide_eq_decide.mpr
  split at h <;> omega

theorem borrow_eq_or (hw : 0 < w) :
    decide (x.toNat < y.toNat + c.toNat) =
      (decide (x.toNat < y.toNat) || decide ((x - y).toNat < c.toNat)) := by
  have h := toNat_sub_carryIn x y false hw
  rw [carryIn_false, BitVec.sub_zero] at h
  have hx := x.isLt
  have hy := y.isLt
  have hc := c.toNat_le
  simp only [toNat_false, Nat.add_zero] at h
  rw [← decide_or]
  apply decide_eq_decide.mpr
  split at h <;> omega

end Out

section Overflow

-- The signed sum is out of range if the operands have the same sign and the result has the other.
theorem msb_add_overflow (hw : 0 < w) :
    ((x ^^^ (x + y + carryIn w c)) &&& (y ^^^ (x + y + carryIn w c))).msb =
      (decide (x.toInt + y.toInt + c.toNat < -2 ^ (w - 1)) ||
        decide (2 ^ (w - 1) ≤ x.toInt + y.toInt + c.toNat)) := by
  have h := toNat_add_carryIn x y c hw
  generalize x + y + carryIn w c = r at h
  have hp : 2 ^ w = 2 * 2 ^ (w - 1) := by
    rw [← Nat.pow_succ', Nat.succ_eq_add_one, Nat.sub_add_cancel hw]
  have hpi : (2 : Int) ^ (w - 1) = ((2 ^ (w - 1) : Nat) : Int) := by push_cast; rfl
  have hx := x.isLt
  have hy := y.isLt
  have hr := r.isLt
  have hc := c.toNat_le
  rw [msb_and, msb_xor, msb_xor, msb_eq_decide, msb_eq_decide,
    msb_eq_decide, toInt_eq_toNat_cond, toInt_eq_toNat_cond, hpi]
  rw [hp] at h hx hy hr ⊢
  generalize 2 ^ (w - 1) = N at *
  by_cases h₁ : N ≤ x.toNat <;> by_cases h₂ : N ≤ y.toNat <;> by_cases h₃ : N ≤ r.toNat <;>
    simp only [h₁, h₂, h₃, decide_true, decide_false, Bool.xor_true, Bool.xor_false,
      Bool.not_true, Bool.not_false, Bool.and_true, Bool.and_false] <;>
    split at h <;> split <;> split <;> simp <;> omega

theorem toInt_not_eq (hw : 0 < w) : (~~~y).toInt = -y.toInt - 1 := by
  have hy := y.isLt
  have hp : ((2 ^ w : Nat) : Int) = 2 ^ w := Nat.cast_pow 2 w
  rw [toInt_eq_msb_cond, toInt_eq_msb_cond, toNat_not, msb_not, decide_eq_true hw]
  cases y.msb <;> simp <;> omega

-- The signed difference is out of range if the operands have different signs and the result has not
-- the one of the minuend.
theorem msb_sub_overflow (hw : 0 < w) :
    ((x ^^^ y) &&& (x ^^^ (x - y - carryIn w c))).msb =
      (decide (x.toInt - y.toInt - c.toNat < -2 ^ (w - 1)) ||
        decide (2 ^ (w - 1) ≤ x.toInt - y.toInt - c.toNat)) := by
  have hadd := msb_add_overflow x (~~~y) (!c) hw
  have hsum : x.toInt + (~~~y).toInt + (!c).toNat = x.toInt - y.toInt - c.toNat := by
    rw [toInt_not_eq y hw]
    cases c <;> simp <;> omega
  rw [← sub_carryIn_eq, hsum] at hadd
  rw [← hadd]
  rw [msb_and, msb_and, msb_xor, msb_xor, msb_xor, msb_not, decide_eq_true hw]
  cases x.msb <;> cases y.msb <;> simp

end Overflow

end Bits
