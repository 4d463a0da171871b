import Mathlib.Data.BitVec
import Mathlib.Algebra.Order.Ring.Int
import Mathlib.Tactic.Positivity
import Mathlib.Tactic.Zify

-- Bits of rotated and shifted bit vectors as bits of the operand, and integers as bit vectors of
-- different widths.

namespace Bits

open BitVec Bool

variable {v w : Nat} {x : BitVec w} {r i : Nat}

theorem eq_iff_getLsbD : x = y ↔ ∀ i < w, x.getLsbD i = y.getLsbD i where
  mp h i _ := by rw [h]
  mpr h := eq_of_getLsbD_eq h

theorem getLsbD_rotateLeft_eq (hi : i < w) :
    (x.rotateLeft r).getLsbD i = x.getLsbD ((i + w - r % w) % w) := by
  have hr : r % w < w := Nat.mod_lt _ (by omega)
  rw [getLsbD_rotateLeft]
  generalize r % w = q at hr ⊢
  by_cases h : i < q
  case pos =>
    rw [Nat.mod_eq_of_lt (by omega), show w - q + i = i + w - q by omega]
    simp [h]
  case neg =>
    rw [show i + w - q = i - q + w by omega, Nat.add_mod_right, Nat.mod_eq_of_lt (by omega)]
    simp [h, hi]

theorem getLsbD_rotateRight_eq (hi : i < w) :
    (x.rotateRight r).getLsbD i = x.getLsbD ((i + r) % w) := by
  have hr : r % w < w := Nat.mod_lt _ (by omega)
  rw [getLsbD_rotateRight, Nat.add_mod, Nat.mod_eq_of_lt hi]
  generalize r % w = q at hr ⊢
  by_cases h : i < w - q
  case pos =>
    rw [Nat.mod_eq_of_lt (by omega)]
    simp [h, Nat.add_comm]
  case neg =>
    rw [show i + q = i - (w - q) + w by omega, Nat.add_mod_right, Nat.mod_eq_of_lt (by omega)]
    simp [h, hi]

theorem getLsbD_sshiftRight_eq (hi : i < w) :
    (x.sshiftRight r).getLsbD i = x.getLsbD (min (i + r) (w - 1)) := by
  rw [getLsbD_sshiftRight]
  by_cases h : r + i < w
  case pos =>
    have hm : min (i + r) (w - 1) = r + i := by omega
    simp [h, hi, hm]
  case neg =>
    have hm : min (i + r) (w - 1) = w - 1 := by omega
    simp [h, hi, hm, msb_eq_getLsbD_last]

@[simp]
theorem rotateLeft_zero (x : BitVec w) : x.rotateLeft 0 = x := by
  simp [rotateLeft_def, ushiftRight_eq_zero]

@[simp]
theorem rotateRight_zero (x : BitVec w) : x.rotateRight 0 = x := by
  simp [rotateRight_def]

theorem and_not_low (x : BitVec w) (k : Nat) :
    x &&& ~~~((BitVec.allOnes k).setWidth w) = x >>> k <<< k := by
  apply eq_of_getLsbD_eq
  intro i hi
  by_cases h : i < k
  case pos => simp [h, hi]
  case neg => simp [h, hi, show k + (i - k) = i by omega]

theorem getLsbD_one_shiftLeft_sub (hn : n < w) : (1#w <<< n - 1#w).getLsbD i = decide (i < n) := by
  have hp : 2 ^ n < 2 ^ w := Nat.pow_lt_pow_right (by decide) hn
  have h1 : 1 < 2 ^ w := Nat.one_lt_two_pow (by omega)
  have hs : 1#w <<< n - 1#w = BitVec.ofNat w (2 ^ n - 1) := by
    apply eq_of_toNat_eq
    rw [← twoPow_eq, toNat_sub_of_le, toNat_twoPow_of_lt hn, toNat_ofNat,
      toNat_ofNat, Nat.mod_eq_of_lt h1, Nat.mod_eq_of_lt (by omega)]
    rw [le_def, toNat_twoPow_of_lt hn, toNat_ofNat, Nat.mod_eq_of_lt h1]
    exact Nat.one_le_two_pow
  rw [hs, BitVec.getLsbD, toNat_ofNat, Nat.mod_eq_of_lt (by omega),
    Nat.testBit_two_pow_sub_one]

theorem setWidth_sub_of_le (h : v ≤ w) (x y : BitVec w) :
    (x - y).setWidth v = x.setWidth v - y.setWidth v := by
  rw [sub_eq_add_neg, setWidth_add _ _ h, setWidth_neg_of_le h,
    ← sub_eq_add_neg]

theorem setWidth_ofInt_of_le (h : v ≤ w) (z : Int) :
    (BitVec.ofInt w z).setWidth v = BitVec.ofInt v z := by
  apply eq_of_toNat_eq
  have hd : (2 : Int) ^ v ∣ 2 ^ w := pow_dvd_pow _ h
  have hv : (0 : Int) < 2 ^ v := by positivity
  have hw : (0 : Int) < 2 ^ w := by positivity
  rw [toNat_setWidth, toNat_ofInt, toNat_ofInt]
  zify
  rw [Int.toNat_of_nonneg (Int.emod_nonneg _ hw.ne'), Int.toNat_of_nonneg (Int.emod_nonneg _ hv.ne'),
    Int.emod_emod_of_dvd _ hd]

theorem emod_mul_ediv (z : Int) (ha : 0 < a) : z % (a * b) / a = z / a % b := by
  have h : z % (a * b) = z + a * -(b * (z / (a * b))) := by
    rw [Int.emod_def, Int.mul_neg, Int.mul_assoc, Int.sub_eq_add_neg]
  rw [h, Int.add_mul_ediv_left _ _ (Int.ne_of_gt ha), Int.emod_def (z / a),
    Int.ediv_ediv_of_nonneg (Int.le_of_lt ha), ← Int.sub_eq_add_neg]

theorem setWidth_ushiftRight_ofInt (h : u + v ≤ w) (z : Int) :
    (BitVec.ofInt w z >>> u).setWidth v = BitVec.ofInt v (z / 2 ^ u) := by
  apply eq_of_toNat_eq
  have hw : (2 : Int) ^ w = 2 ^ u * (2 ^ v * 2 ^ (w - (u + v))) := by
    rw [← Int.pow_add, ← Int.pow_add]
    congr 1
    omega
  have hd : (2 : Int) ^ v ∣ 2 ^ v * 2 ^ (w - (u + v)) := Int.dvd_mul_right ..
  apply Int.natCast_inj.mp
  simp only [toNat_setWidth, toNat_ushiftRight, toNat_ofInt,
    Nat.shiftRight_eq_div_pow]
  push_cast
  rw [Int.toNat_of_nonneg (Int.emod_nonneg _ (by positivity)),
    Int.toNat_of_nonneg (Int.emod_nonneg _ (by positivity)), hw, emod_mul_ediv _ (by positivity),
    Int.emod_emod_of_dvd _ hd]

theorem ofInt_eq_ofInt_iff : BitVec.ofInt w y = BitVec.ofInt w z ↔ y % 2 ^ w = z % 2 ^ w := by
  have hw : (0 : Int) < 2 ^ w := by positivity
  rw [← toNat_inj, toNat_ofInt, toNat_ofInt]
  zify
  rw [Int.toNat_of_nonneg (Int.emod_nonneg _ hw.ne'), Int.toNat_of_nonneg (Int.emod_nonneg _ hw.ne')]

theorem ssubOverflow_eq_bne (x y : BitVec w) :
    x.ssubOverflow y = (x.msb != y.msb && (x - y).msb != x.msb) := by
  rw [ssubOverflow_eq]
  cases x.msb <;> cases y.msb <;> cases (x - y).msb <;> rfl

theorem msb_sub_bne_ssubOverflow (x y : BitVec w) :
    ((x - y).msb != x.ssubOverflow y) = x.slt y := by
  rw [slt_eq_decide]
  cases ho : x.ssubOverflow y
  case false =>
    rw [msb_eq_toInt, toInt_sub_of_not_ssubOverflow (by simp [ho]), bne_false]
    exact decide_eq_decide.mpr (by omega)
  case true =>
    have hx : x.msb = decide (x.toInt < 0) := msb_eq_toInt
    have hy : y.msb = decide (y.toInt < 0) := msb_eq_toInt
    rw [ssubOverflow_eq] at ho
    cases hn : (x - y).msb
    all_goals
      simp [hn, hx, hy] at ho
      simp
      omega

theorem msb_sub_beq_ssubOverflow (x y : BitVec w) :
    ((x - y).msb == x.ssubOverflow y) = y.sle x := by
  rw [sle_eq_not_slt, ← msb_sub_bne_ssubOverflow, bne, Bool.not_not]

theorem sub_beq_zero (x y : BitVec w) : (x - y == 0#w) = (x == y) := by
  have h : x - y = 0#w ↔ x = y := by rw [BitVec.sub_eq_iff_eq_add, BitVec.zero_add]
  exact eq_iff_iff.mpr (by simpa only [beq_iff_eq] using h)

theorem ule_and_ne (x y : BitVec w) : (y.ule x && !(x == y)) = y.ult x := by
  have h : x = y ↔ x.toNat = y.toNat := toNat_inj.symm
  apply Bool.eq_iff_iff.mpr
  simp only [ule_eq_decide, ult_eq_decide, Bool.and_eq_true,
    not_eq_true', beq_eq_false_iff_ne, decide_eq_true_eq, ne_eq, h]
  omega

theorem ult_or_eq (x y : BitVec w) : (x.ult y || x == y) = x.ule y := by
  have h : x = y ↔ x.toNat = y.toNat := toNat_inj.symm
  apply Bool.eq_iff_iff.mpr
  simp only [ule_eq_decide, ult_eq_decide, Bool.or_eq_true,
    beq_iff_eq, decide_eq_true_eq, h]
  omega

theorem ne_and_sle (x y : BitVec w) : (!(x == y) && y.sle x) = y.slt x := by
  have h : x = y ↔ x.toInt = y.toInt := toInt_inj.symm
  apply Bool.eq_iff_iff.mpr
  simp only [sle_eq_decide, slt_eq_decide, Bool.and_eq_true,
    not_eq_true', beq_eq_false_iff_ne, decide_eq_true_eq, ne_eq, h]
  omega

theorem eq_or_slt (x y : BitVec w) : (x == y || x.slt y) = x.sle y := by
  have h : x = y ↔ x.toInt = y.toInt := toInt_inj.symm
  apply Bool.eq_iff_iff.mpr
  simp only [sle_eq_decide, slt_eq_decide, Bool.or_eq_true,
    beq_iff_eq, decide_eq_true_eq, h]
  omega

end Bits
