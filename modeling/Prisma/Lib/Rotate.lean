import Prisma.Lib.Bits
import Prisma.Lib.Carry

-- Rotations of a bit vector together with a carry, as shifts of the bit vector.

namespace Bits

open BitVec

variable {w n : Nat} (c : Bool) (x : BitVec w)

theorem getLsbD_carryIn_shiftLeft (hi : i < w) :
    (carryIn w c <<< n).getLsbD i = (c && decide (i = n)) := by
  simp only [carryIn, getLsbD_shiftLeft, getLsbD_setWidth, getLsbD_ofBool, hi,
    decide_true, Bool.true_and]
  by_cases h : i = n
  case pos => subst h; simp; omega
  case neg =>
    by_cases hn : i < n
    case pos => simp [h, hn]
    case neg => simp [h, show ¬i - n = 0 by omega]

theorem getLsbD_cons_mod : (BitVec.cons c x).getLsbD (i % (w + 1)) =
    if i % (w + 1) = w then c else x.getLsbD (i % (w + 1)) :=
  getLsbD_cons ..

section Left

variable (h : 0 < n) (hn : n ≤ w)

include h hn

theorem rotateLeft_cons_setWidth : ((BitVec.cons c x).rotateLeft n).setWidth w =
    x <<< n ||| carryIn w c <<< (n - 1) ||| x >>> (w + 1 - n) := by
  apply eq_of_getLsbD_eq
  intro i hi
  rw [getLsbD_setWidth, getLsbD_rotateLeft_eq (by omega), Nat.mod_eq_of_lt (a := n) (by omega),
    getLsbD_cons_mod, getLsbD_or, getLsbD_or, getLsbD_carryIn_shiftLeft c hi,
    getLsbD_shiftLeft, getLsbD_ushiftRight]
  by_cases hin : i < n
  case pos =>
    have hm : (i + (w + 1) - n) % (w + 1) = w + 1 - n + i := by
      rw [Nat.mod_eq_of_lt (by omega)]
      omega
    rw [hm]
    by_cases he : i = n - 1
    case pos =>
      have hx : x.getLsbD (w + 1 - n + i) = false := getLsbD_of_ge _ _ (by omega)
      rw [hx, if_pos (by omega)]
      simp [hi, hin, ← he]
    case neg => simp [hi, hin, he, show w + 1 - n + i ≠ w by omega]
  case neg =>
    have hm : (i + (w + 1) - n) % (w + 1) = i - n := by
      rw [show i + (w + 1) - n = i - n + (w + 1) by omega, Nat.add_mod_right,
        Nat.mod_eq_of_lt (by omega)]
    have hx : x.getLsbD (w + 1 - n + i) = false := getLsbD_of_ge _ _ (by omega)
    simp [hm, hi, hin, hx, show i - n ≠ w by omega, show i ≠ n - 1 by omega]

theorem rotateLeft_cons_msb : ((BitVec.cons c x).rotateLeft n).msb = x.getLsbD (w - n) := by
  rw [msb_eq_getLsbD_last, getLsbD_rotateLeft_eq (by omega),
    Nat.mod_eq_of_lt (a := n) (by omega), getLsbD_cons_mod]
  have hm : (w + 1 - 1 + (w + 1) - n) % (w + 1) = w - n := by
    rw [show w + 1 - 1 + (w + 1) - n = w - n + (w + 1) by omega, Nat.add_mod_right,
      Nat.mod_eq_of_lt (by omega)]
  rw [hm, if_neg (by omega)]

end Left

section Right

variable (h : 0 < n) (hn : n ≤ w)

include h hn

theorem rotateRight_cons_setWidth : ((BitVec.cons c x).rotateRight n).setWidth w =
    x >>> n ||| carryIn w c <<< (w - n) ||| x <<< (w + 1 - n) := by
  apply eq_of_getLsbD_eq
  intro i hi
  rw [getLsbD_setWidth, getLsbD_rotateRight_eq (by omega), getLsbD_cons_mod,
    getLsbD_or, getLsbD_or, getLsbD_carryIn_shiftLeft c hi, getLsbD_shiftLeft,
    getLsbD_ushiftRight]
  by_cases hin : i + n < w + 1
  case pos =>
    rw [Nat.mod_eq_of_lt hin]
    by_cases he : i = w - n
    case pos =>
      have hx : x.getLsbD (n + i) = false := getLsbD_of_ge _ _ (by omega)
      rw [hx, if_pos (by omega)]
      simp [hi, show i < w + 1 - n by omega, ← he]
    case neg =>
      simp [hi, he, show i + n ≠ w by omega, show i < w + 1 - n by omega, Nat.add_comm n i]
  case neg =>
    have hm : (i + n) % (w + 1) = i - (w + 1 - n) := by
      rw [show i + n = i - (w + 1 - n) + (w + 1) by omega, Nat.add_mod_right,
        Nat.mod_eq_of_lt (by omega)]
    have hx : x.getLsbD (n + i) = false := getLsbD_of_ge _ _ (by omega)
    simp [hm, hi, hx, show i - (w + 1 - n) ≠ w by omega, show ¬i < w + 1 - n by omega,
      show i ≠ w - n by omega]

theorem rotateRight_cons_msb : ((BitVec.cons c x).rotateRight n).msb = x.getLsbD (n - 1) := by
  rw [msb_eq_getLsbD_last, getLsbD_rotateRight_eq (by omega), getLsbD_cons_mod]
  have hm : (w + 1 - 1 + n) % (w + 1) = n - 1 := by
    rw [show w + 1 - 1 + n = n - 1 + (w + 1) by omega, Nat.add_mod_right, Nat.mod_eq_of_lt (by omega)]
  rw [hm, if_neg (by omega)]

end Right

end Bits
